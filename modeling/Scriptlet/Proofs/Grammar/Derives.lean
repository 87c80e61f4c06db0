import Scriptlet.Proofs.Grammar.Reading
import Scriptlet.Proofs.Grammar.Rules

/-!
# What is read is derivable

A reading follows the rules one by one. Whether kinds fit a phrase is asked here
of the kinds of given tokens, so that a phrase cuts the tokens themselves.
-/

namespace Scriptlet.Grammar

namespace Phrase

variable {language : Symbol → List Kind → Prop} {p q : Phrase} {ts : List Token}

/-- Tokens fit one token of a kind. -/
theorem fits_token {kind : Kind} : (token kind).Fits language (ts.map Token.kind) ↔
    ∃ t, ts = [t] ∧ t.kind = kind := by
  constructor
  · intro h
    obtain ⟨t, rest, rfl, ht, hrest⟩ := List.map_eq_cons_iff.mp h
    rw [List.map_eq_nil_iff.mp hrest]
    exact ⟨t, rfl, ht⟩
  · rintro ⟨t, rfl, rfl⟩
    rfl

/-- Tokens fit nothing. -/
theorem fits_nothing : nothing.Fits language (ts.map Token.kind) ↔ ts = [] :=
  List.map_eq_nil_iff

/-- Tokens fit one phrase or another. -/
theorem fits_either {kinds : List Kind} : (either p q).Fits language kinds ↔
    p.Fits language kinds ∨ q.Fits language kinds := Iff.rfl

/-- Tokens fit one phrase after another. -/
theorem fits_pair : (pair p q).Fits language (ts.map Token.kind) ↔
    ∃ us vs, ts = us ++ vs ∧ p.Fits language (us.map Token.kind) ∧
      q.Fits language (vs.map Token.kind) := by
  constructor
  · rintro ⟨before, after, hts, hp, hq⟩
    obtain ⟨us, vs, rfl, rfl, rfl⟩ := List.map_eq_append_iff.mp hts
    exact ⟨us, vs, rfl, hp, hq⟩
  · rintro ⟨us, vs, rfl, hp, hq⟩
    exact ⟨us.map Token.kind, vs.map Token.kind, List.map_append, hp, hq⟩

/-- Tokens fit a token of a kind with a phrase behind it. -/
theorem fits_cons {kind : Kind} : (pair (token kind) q).Fits language (ts.map Token.kind) ↔
    ∃ t us, ts = t :: us ∧ t.kind = kind ∧ q.Fits language (us.map Token.kind) := by
  rw [fits_pair]
  constructor
  · rintro ⟨us, vs, rfl, hp, hq⟩
    obtain ⟨t, rfl, ht⟩ := fits_token.mp hp
    exact ⟨t, vs, rfl, ht, hq⟩
  · rintro ⟨t, us, rfl, ht, hq⟩
    exact ⟨[t], us, rfl, fits_token.mpr ⟨t, rfl, ht⟩, hq⟩

/-- Tokens fit a repetition when they can be cut into pieces that fit. -/
theorem fits_many {limit : Option Nat} : (many limit p).Fits language (ts.map Token.kind) ↔
    ∃ pieces : List (List Token), ts = pieces.flatten ∧ (∀ bound ∈ limit, pieces.length ≤ bound) ∧
      ∀ piece ∈ pieces, p.Fits language (piece.map Token.kind) := by
  have hcut : ∀ (pieces : List (List Kind)) (ts : List Token), ts.map Token.kind = pieces.flatten →
      ∃ cut : List (List Token), ts = cut.flatten ∧ cut.map (List.map Token.kind) = pieces := by
    intro pieces
    induction pieces with
    | nil => exact fun ts hts => ⟨[], List.map_eq_nil_iff.mp hts, rfl⟩
    | cons piece pieces ih =>
      intro ts hts
      obtain ⟨us, vs, rfl, hus, hvs⟩ := List.map_eq_append_iff.mp hts
      obtain ⟨cut, rfl, hcut⟩ := ih vs hvs
      exact ⟨us :: cut, rfl, by rw [List.map_cons, hus, hcut]⟩
  constructor
  · rintro ⟨pieces, hts, hbound, hall⟩
    obtain ⟨cut, rfl, rfl⟩ := hcut pieces ts hts
    refine ⟨cut, rfl, fun bound hmem => ?_, fun piece hmem => hall _ (List.mem_map_of_mem hmem)⟩
    have hlength := hbound bound hmem
    rwa [List.length_map] at hlength
  · rintro ⟨pieces, rfl, hbound, hall⟩
    refine ⟨pieces.map (List.map Token.kind), List.map_flatten, fun bound hmem => ?_, ?_⟩
    · rw [List.length_map]
      exact hbound bound hmem
    · intro piece hmem
      obtain ⟨cut, hcut, rfl⟩ := List.mem_map.mp hmem
      exact hall cut hcut

/-- Tokens fit one of several kinds. -/
theorem fits_tokenOf {kind : Kind} {kinds : List Kind} :
    (tokenOf kind kinds).Fits language (ts.map Token.kind) ↔
      ∃ t, ts = [t] ∧ t.kind ∈ kind :: kinds := by
  induction kinds generalizing kind with
  | nil => simp only [tokenOf, oneOf, List.map_nil, fits_token, List.mem_singleton]
  | cons next kinds ih =>
    have hrest := @ih next
    unfold tokenOf at hrest
    simp only [tokenOf, oneOf, List.map_cons, fits_either, fits_token, hrest]
    constructor
    · rintro (⟨t, hts, ht⟩ | ⟨t, hts, ht⟩)
      · exact ⟨t, hts, List.mem_cons.mpr (Or.inl ht)⟩
      · exact ⟨t, hts, List.mem_cons.mpr (Or.inr ht)⟩
    · rintro ⟨t, hts, ht⟩
      rcases List.mem_cons.mp ht with ht | ht
      · exact Or.inl ⟨t, hts, ht⟩
      · exact Or.inr ⟨t, hts, ht⟩

/-- No tokens fit a repetition without a limit. -/
theorem fits_star_nil : (star p).Fits language (([] : List Token).map Token.kind) :=
  fits_many.mpr ⟨[], rfl, by simp, by simp⟩

/-- A repetition goes on before another piece, if there is no limit. -/
theorem fits_star_cons {us : List Token} (first : p.Fits language (us.map Token.kind))
    (others : (star p).Fits language (ts.map Token.kind)) :
    (star p).Fits language ((us ++ ts).map Token.kind) := by
  obtain ⟨pieces, rfl, -, hall⟩ := fits_many.mp others
  refine fits_many.mpr ⟨us :: pieces, rfl, by simp, ?_⟩
  intro piece hmem
  rcases List.mem_cons.mp hmem with rfl | hmem
  · exact first
  · exact hall piece hmem

/-- A repetition goes on behind another piece, if there is no limit. -/
theorem fits_star_snoc {us : List Token} (others : (star p).Fits language (ts.map Token.kind))
    (last : p.Fits language (us.map Token.kind)) :
    (star p).Fits language ((ts ++ us).map Token.kind) := by
  obtain ⟨pieces, rfl, -, hall⟩ := fits_many.mp others
  refine fits_many.mpr ⟨pieces ++ [us], by simp, by simp, ?_⟩
  intro piece hmem
  rcases List.mem_append.mp hmem with hmem | hmem
  · exact hall piece hmem
  · rw [List.mem_singleton.mp hmem]
    exact last

/-- One phrase is a list of one. -/
theorem fits_list_one {limit : Nat} (only : p.Fits language (ts.map Token.kind)) :
    (list limit p).Fits language (ts.map Token.kind) :=
  fits_pair.mpr ⟨ts, [], by simp, only, fits_many.mpr ⟨[], rfl, by simp, by simp⟩⟩

/-- A list goes on before another phrase with a comma, and the limit grows. -/
theorem fits_list_cons {limit : Nat} {us : List Token} {comma : Token}
    (first : p.Fits language (us.map Token.kind)) (hcomma : comma.kind = .comma)
    (others : (list limit p).Fits language (ts.map Token.kind)) :
    (list (limit + 1) p).Fits language ((us ++ comma :: ts).map Token.kind) := by
  obtain ⟨vs, ws, rfl, hfirst, hmany⟩ := fits_pair.mp others
  obtain ⟨pieces, rfl, hbound, hall⟩ := fits_many.mp hmany
  refine fits_pair.mpr ⟨us, comma :: vs ++ pieces.flatten, rfl, first, ?_⟩
  refine fits_many.mpr ⟨(comma :: vs) :: pieces, rfl, ?_, ?_⟩
  · rintro bound ⟨⟩
    exact Nat.succ_le_succ (hbound limit rfl)
  · intro piece hmem
    rcases List.mem_cons.mp hmem with rfl | hmem
    · exact fits_cons.mpr ⟨comma, vs, rfl, hcomma, hfirst⟩
    · exact hall piece hmem

/-- A longer list may be as long as a shorter one. -/
theorem fits_list_mono {limit more : Nat} (hle : limit ≤ more)
    (h : (list limit p).Fits language (ts.map Token.kind)) :
    (list more p).Fits language (ts.map Token.kind) := by
  obtain ⟨vs, ws, rfl, hfirst, hmany⟩ := fits_pair.mp h
  obtain ⟨pieces, rfl, hbound, hall⟩ := fits_many.mp hmany
  refine fits_pair.mpr ⟨vs, _, rfl, hfirst, fits_many.mpr ⟨pieces, rfl, ?_, hall⟩⟩
  rintro bound ⟨⟩
  exact Nat.le_trans (hbound limit rfl) hle

end Phrase

open Phrase

/-- The symbol of a level. -/
def Level.symbol : Level → Symbol
  | disjunction => .logicOr
  | conjunction => .logicAnd
  | equality => .equality
  | comparison => .comparison
  | term => .term
  | factor => .factor

/-- The phrase that a part follows when it lists `count` parts. -/
def Part.phrase (count : Nat) : Part → Phrase
  | primary => symbol .primary
  | call => symbol .call
  | unary => symbol .unary
  | level l => symbol l.symbol
  | assignment => symbol .assignment
  | expression => symbol .expression
  | arguments => list (count - 1) (symbol .expression)
  | clause => Phrase.optional (symbol .expression)
  | parameters => list (count - 1) (token .identifier)
  | routine => symbol .function
  | methods => star (symbol .function)
  | varDecl =>
    row [token .identifier, Phrase.optional (row [token .equal, symbol .expression]),
      token .semicolon]
  | exprStmt => symbol .exprStmt
  | forInitial => oneOf (symbol .varDecl) [symbol .exprStmt, token .semicolon]
  | statement => symbol .statement
  | declaration => symbol .declaration
  | declarations => star (symbol .declaration)

/-- How many arguments or parameters there are. -/
def Node.count : Node → Nat
  | exprs es => es.length
  | names ts => ts.length
  | _ => 0

/-- The rule of a level joins its operands by its operators. -/
theorem Level.rules_symbol (l : Level) : ∃ kind kinds,
    rules l.symbol = joined (l.operand.phrase 0) (tokenOf kind kinds) ∧
      ∀ k, k ∈ kind :: kinds ↔ k ∈ l.operators := by
  cases l
  case disjunction => exact ⟨.kwOr, [], rfl, by simp [operators]⟩
  case conjunction => exact ⟨.kwAnd, [], rfl, by simp [operators]⟩
  case equality => exact ⟨.bangEqual, [.equalEqual], rfl, by simp [operators]⟩
  case comparison =>
    exact ⟨.greater, [.greaterEqual, .less, .lessEqual], rfl, by simp [operators]⟩
  case term => exact ⟨.minus, [.plus], rfl, by simp [operators]⟩
  case factor => exact ⟨.slash, [.star], rfl, by simp [operators, or_comm]⟩

/-- What is derivable from an operand and joined to no other is derivable from its level. -/
theorem Level.derivable_operand (l : Level) {ts : List Token}
    (h : (l.operand.phrase 0).Fits Derivable (ts.map Token.kind)) :
    Derivable l.symbol (ts.map Token.kind) := by
  obtain ⟨kind, kinds, hrule, -⟩ := l.rules_symbol
  apply Derivable.of_fits
  rw [hrule]
  exact fits_pair.mpr ⟨ts, [], (List.append_nil ts).symm, h, fits_star_nil⟩

/-- What is derivable from a level is still so with another operator and operand behind it. -/
theorem Level.derivable_join (l : Level) {ts us : List Token} {operator : Token}
    (left : Derivable l.symbol (ts.map Token.kind)) (h : operator.kind ∈ l.operators)
    (right : (l.operand.phrase 0).Fits Derivable (us.map Token.kind)) :
    Derivable l.symbol ((ts ++ operator :: us).map Token.kind) := by
  obtain ⟨kind, kinds, hrule, hkinds⟩ := l.rules_symbol
  have hleft := left.fits
  rw [hrule] at hleft
  obtain ⟨vs, ws, rfl, hfirst, hothers⟩ := fits_pair.mp hleft
  apply Derivable.of_fits
  rw [hrule, List.append_assoc]
  refine fits_pair.mpr ⟨vs, _, rfl, hfirst, fits_star_snoc hothers ?_⟩
  exact fits_pair.mpr ⟨[operator], us, rfl,
    fits_tokenOf.mpr ⟨operator, rfl, (hkinds _).mpr h⟩, right⟩

/-- What is derivable as a call is still so with a suffix behind it. -/
theorem derivable_suffix {ts us : List Token} (callee : Derivable .call (ts.map Token.kind))
    (suffix : (oneOf (row [token .leftParen, Phrase.optional (symbol .arguments),
      token .rightParen]) [row [token .dot, token .identifier]]).Fits Derivable
        (us.map Token.kind)) :
    Derivable .call ((ts ++ us).map Token.kind) := by
  obtain ⟨vs, ws, rfl, hfirst, hothers⟩ := fits_pair.mp callee.fits
  apply Derivable.of_fits
  rw [List.append_assoc]
  exact fits_pair.mpr ⟨vs, _, rfl, hfirst, fits_star_snoc hothers suffix⟩

/-- What is read as a part follows its phrase. -/
theorem Reads.fits {p : Part} {n m : Nat} {ts : List Token} {x : Node} (h : Reads p n ts x m) :
    (p.phrase x.count).Fits Derivable (ts.map Token.kind) := by
  induction h with
  | constant h =>
    have hsub : ∀ k ∈ [Kind.number, .string, .kwTrue, .kwFalse, .kwNil],
        k ∈ [Kind.number, .string, .kwTrue, .kwFalse, .kwNil, .kwThis, .identifier] := by decide
    exact .of_fits (Or.inl (fits_tokenOf.mpr ⟨_, rfl, hsub _ (kind_of_constant h)⟩))
  | receiver h => exact .of_fits (Or.inl (fits_tokenOf.mpr ⟨_, rfl, by rw [h]; decide⟩))
  | name h => exact .of_fits (Or.inl (fits_tokenOf.mpr ⟨_, rfl, by rw [h]; decide⟩))
  | group hleft _ hright ih =>
    exact .of_fits (Or.inr (fits_cons.mpr ⟨_, _, rfl, hleft,
      fits_pair.mpr ⟨_, _, rfl, ih, fits_token.mpr ⟨_, rfl, hright⟩⟩⟩))
  | callPrimary _ ih =>
    exact .of_fits (fits_pair.mpr ⟨_, [], (List.append_nil _).symm, ih, fits_star_nil⟩)
  | callEmpty _ hleft hright ih =>
    exact derivable_suffix ih (Or.inl (fits_cons.mpr ⟨_, _, rfl, hleft,
      fits_pair.mpr ⟨[], _, rfl, Or.inr rfl, fits_token.mpr ⟨_, rfl, hright⟩⟩⟩))
  | callWith _ hleft _ few hright ih ihgiven =>
    have hgiven := fits_list_mono (Nat.sub_le_sub_right few 1) ihgiven
    exact derivable_suffix ih (Or.inl (fits_cons.mpr ⟨_, _, rfl, hleft,
      fits_pair.mpr ⟨_, _, rfl, Or.inl (.of_fits hgiven), fits_token.mpr ⟨_, rfl, hright⟩⟩⟩))
  | callGet _ hdot hname ih =>
    exact derivable_suffix ih (Or.inr (fits_cons.mpr ⟨_, _, rfl, hdot,
      fits_token.mpr ⟨_, rfl, hname⟩⟩))
  | argumentsLast _ ih => exact fits_list_one ih
  | argumentsMore _ hcomma others ih ihothers =>
    have hothers := fits_list_cons ih hcomma ihothers
    cases others with
    | argumentsLast _ => exact hothers
    | argumentsMore _ _ _ => exact hothers
  | unaryCall _ ih => exact .of_fits (Or.inr ih)
  | unarySign h _ ih =>
    exact .of_fits (Or.inl (fits_pair.mpr ⟨[_], _, rfl, fits_tokenOf.mpr ⟨_, rfl, h⟩, ih⟩))
  | levelOperand l _ ih => exact l.derivable_operand ih
  | levelJoin l _ h _ ih ihright => exact l.derivable_join ih h ihright
  | assignmentPlain _ ih => exact .of_fits (Or.inr ih)
  | assignmentVar hname hsign _ ih =>
    exact .of_fits (Or.inl (fits_pair.mpr ⟨[], _, rfl, Or.inr rfl,
      fits_cons.mpr ⟨_, _, rfl, hname, fits_cons.mpr ⟨_, _, rfl, hsign, ih⟩⟩⟩))
  | @assignmentSet _ _ _ ts us _ _ dot name sign _ hdot hname hsign _ ih ihvalue =>
    have htarget : (row [symbol .call, token .dot]).Fits Derivable ((ts ++ [dot]).map Token.kind) :=
      fits_pair.mpr ⟨_, _, rfl, ih, fits_token.mpr ⟨_, rfl, hdot⟩⟩
    have hsplit : ts ++ dot :: name :: sign :: us = (ts ++ [dot]) ++ name :: sign :: us := by
      rw [List.append_assoc]
      rfl
    exact .of_fits (Or.inl (fits_pair.mpr ⟨_, _, hsplit, Or.inl htarget,
      fits_cons.mpr ⟨_, _, rfl, hname, fits_cons.mpr ⟨_, _, rfl, hsign, ihvalue⟩⟩⟩))
  | expression _ ih => exact .of_fits ih
  | clauseAbsent => exact Or.inr rfl
  | clausePresent _ ih => exact Or.inl ih
  | parametersLast h => exact fits_list_one (fits_token.mpr ⟨_, rfl, h⟩)
  | @parametersMore _ _ _ name comma h hcomma others ih =>
    have hname : (token .identifier).Fits Derivable ([name].map Token.kind) :=
      fits_token.mpr ⟨_, rfl, h⟩
    have hothers := fits_list_cons hname hcomma ih
    cases others with
    | parametersLast _ => exact hothers
    | parametersMore _ _ _ => exact hothers
  | routineEmpty hname hleft hright hopening _ hclosing ih =>
    refine .of_fits (fits_cons.mpr ⟨_, _, rfl, hname, fits_cons.mpr ⟨_, _, rfl, hleft,
      fits_pair.mpr ⟨[], _, rfl, Or.inr rfl, fits_cons.mpr ⟨_, _, rfl, hright, ?_⟩⟩⟩⟩)
    exact .of_fits (fits_cons.mpr ⟨_, _, rfl, hopening,
      fits_pair.mpr ⟨_, _, rfl, ih, fits_token.mpr ⟨_, rfl, hclosing⟩⟩⟩)
  | routineWith hname hleft _ few hright hopening _ hclosing ihgiven ih =>
    have hgiven := fits_list_mono (Nat.sub_le_sub_right few 1) ihgiven
    refine .of_fits (fits_cons.mpr ⟨_, _, rfl, hname, fits_cons.mpr ⟨_, _, rfl, hleft,
      fits_pair.mpr ⟨_, _, rfl, Or.inl (.of_fits hgiven),
        fits_cons.mpr ⟨_, _, rfl, hright, ?_⟩⟩⟩⟩)
    exact .of_fits (fits_cons.mpr ⟨_, _, rfl, hopening,
      fits_pair.mpr ⟨_, _, rfl, ih, fits_token.mpr ⟨_, rfl, hclosing⟩⟩⟩)
  | methodsNone => exact fits_star_nil
  | methodsMore _ _ ih ihothers => exact fits_star_cons ih ihothers
  | varBare hname hstop =>
    exact fits_cons.mpr ⟨_, _, rfl, hname,
      fits_pair.mpr ⟨[], _, rfl, Or.inr rfl, fits_token.mpr ⟨_, rfl, hstop⟩⟩⟩
  | @varWith _ _ us _ sign _ _ hname hsign _ hstop ih =>
    refine fits_cons.mpr ⟨_, _, rfl, hname, fits_pair.mpr ⟨sign :: us, _, rfl, Or.inl ?_,
      fits_token.mpr ⟨_, rfl, hstop⟩⟩⟩
    exact fits_cons.mpr ⟨_, _, rfl, hsign, ih⟩
  | exprStmt _ hstop ih =>
    exact .of_fits (fits_pair.mpr ⟨_, _, rfl, ih, fits_token.mpr ⟨_, rfl, hstop⟩⟩)
  | initialAbsent hstop => exact Or.inr (Or.inr (fits_token.mpr ⟨_, rfl, hstop⟩))
  | initialVar h _ ih => exact Or.inl (.of_fits (fits_cons.mpr ⟨_, _, rfl, h, ih⟩))
  | initialExpr _ ih => exact Or.inr (Or.inl ih)
  | statementExpr _ ih => exact .of_fits (Or.inl ih)
  | statementPrint h _ hstop ih =>
    refine .of_fits (Or.inr (Or.inr (Or.inr (Or.inl (.of_fits ?_)))))
    exact fits_cons.mpr ⟨_, _, rfl, h, fits_pair.mpr ⟨_, _, rfl, ih, fits_token.mpr ⟨_, rfl, hstop⟩⟩⟩
  | statementReturn h _ hstop ih =>
    refine .of_fits (Or.inr (Or.inr (Or.inr (Or.inr (Or.inl (.of_fits ?_))))))
    exact fits_cons.mpr ⟨_, _, rfl, h, fits_pair.mpr ⟨_, _, rfl, ih, fits_token.mpr ⟨_, rfl, hstop⟩⟩⟩
  | statementWhile h hleft _ hright _ ih ihbody =>
    refine .of_fits (Or.inr (Or.inr (Or.inr (Or.inr (Or.inr (Or.inl (.of_fits ?_)))))))
    exact fits_cons.mpr ⟨_, _, rfl, h, fits_cons.mpr ⟨_, _, rfl, hleft,
      fits_pair.mpr ⟨_, _, rfl, ih, fits_cons.mpr ⟨_, _, rfl, hright, ihbody⟩⟩⟩⟩
  | statementIf h hleft _ hright _ ih ihyes =>
    refine .of_fits (Or.inr (Or.inr (Or.inl (.of_fits ?_))))
    exact fits_cons.mpr ⟨_, _, rfl, h, fits_cons.mpr ⟨_, _, rfl, hleft,
      fits_pair.mpr ⟨_, _, rfl, ih, fits_cons.mpr ⟨_, _, rfl, hright,
        fits_pair.mpr ⟨_, [], (List.append_nil _).symm, ihyes, Or.inr rfl⟩⟩⟩⟩⟩
  | statementElse h hleft _ hright _ hmiddle _ ih ihyes ihno =>
    refine .of_fits (Or.inr (Or.inr (Or.inl (.of_fits ?_))))
    exact fits_cons.mpr ⟨_, _, rfl, h, fits_cons.mpr ⟨_, _, rfl, hleft,
      fits_pair.mpr ⟨_, _, rfl, ih, fits_cons.mpr ⟨_, _, rfl, hright,
        fits_pair.mpr ⟨_, _, rfl, ihyes, Or.inl (fits_cons.mpr ⟨_, _, rfl, hmiddle, ihno⟩)⟩⟩⟩⟩⟩
  | statementFor h hleft _ _ hstop _ hright _ ihinitial ihcondition ihincrement ih =>
    refine .of_fits (Or.inr (Or.inl (.of_fits ?_)))
    exact fits_cons.mpr ⟨_, _, rfl, h, fits_cons.mpr ⟨_, _, rfl, hleft,
      fits_pair.mpr ⟨_, _, rfl, ihinitial, fits_pair.mpr ⟨_, _, rfl, Or.inl ihcondition,
        fits_cons.mpr ⟨_, _, rfl, hstop, fits_pair.mpr ⟨_, _, rfl, ihincrement,
          fits_cons.mpr ⟨_, _, rfl, hright, ih⟩⟩⟩⟩⟩⟩⟩
  | statementForever h hleft _ hstop _ hright _ ihinitial ihincrement ih =>
    refine .of_fits (Or.inr (Or.inl (.of_fits ?_)))
    exact fits_cons.mpr ⟨_, _, rfl, h, fits_cons.mpr ⟨_, _, rfl, hleft,
      fits_pair.mpr ⟨_, _, rfl, ihinitial, fits_pair.mpr ⟨[], _, rfl, Or.inr rfl,
        fits_cons.mpr ⟨_, _, rfl, hstop, fits_pair.mpr ⟨_, _, rfl, ihincrement,
          fits_cons.mpr ⟨_, _, rfl, hright, ih⟩⟩⟩⟩⟩⟩⟩
  | statementBlock hopening _ hclosing ih =>
    refine .of_fits (Or.inr (Or.inr (Or.inr (Or.inr (Or.inr (Or.inr (.of_fits ?_)))))))
    exact fits_cons.mpr ⟨_, _, rfl, hopening,
      fits_pair.mpr ⟨_, _, rfl, ih, fits_token.mpr ⟨_, rfl, hclosing⟩⟩⟩
  | declarationStatement _ ih => exact .of_fits (Or.inr (Or.inr (Or.inr ih)))
  | declarationClass h hname hopening _ hclosing ih =>
    refine .of_fits (Or.inl (.of_fits ?_))
    exact fits_cons.mpr ⟨_, _, rfl, h, fits_cons.mpr ⟨_, _, rfl, hname,
      fits_cons.mpr ⟨_, _, rfl, hopening,
        fits_pair.mpr ⟨_, _, rfl, ih, fits_token.mpr ⟨_, rfl, hclosing⟩⟩⟩⟩⟩
  | declarationFunction h _ ih =>
    exact .of_fits (Or.inr (Or.inl (.of_fits (fits_cons.mpr ⟨_, _, rfl, h, ih⟩))))
  | declarationVar h _ ih =>
    exact .of_fits (Or.inr (Or.inr (Or.inl (.of_fits (fits_cons.mpr ⟨_, _, rfl, h, ih⟩)))))
  | declarationsNone => exact fits_star_nil
  | declarationsMore _ _ ih ihothers => exact fits_star_cons ih ihothers

end Scriptlet.Grammar
