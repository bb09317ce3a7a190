/-
Phrases of an expression: the ways in which words follow the rules of the grammar, as data. There is one
type for each rule and one constructor for each way of following it, and a phrase holds its words with the
kinds that the rule asks for, so that no phrase breaks the grammar. `words` lists the words of a phrase,
`tree` reads it rule by rule. Main statement: the tree of an expression is well-formed
(`Expression.wellFormed`).
-/
import PL0.Expr
import PL0.Parser

namespace PL0.Phrase

/-! ## Words -/

/-- A word of a kind. -/
structure Word (kind : TokenKind) where
  token : Token
  kind_eq : token.kind = kind

/-- A number that has its value. -/
structure Numeral where
  token : Token
  value : Int64
  kind_eq : token.kind = .number
  value_eq : token.value = some value

/-- `"+" | "-"` -/
inductive Sign where
  | plus (word : Word .plus)
  | minus (word : Word .minus)

/-- `"*" | "/"` -/
inductive Times where
  | multiply (word : Word .multiply)
  | divide (word : Word .divide)

/-- None of the kinds is at the front of the words. -/
def Ends (kinds : List TokenKind) (ts : List Token) : Prop := (frontOf ts).kind ∉ kinds

/-- The kinds with which a sum goes on after a term. -/
def sumKinds : List TokenKind := [.plus, .minus]

/-- The kinds with which a product goes on after a factor. -/
def productKinds : List TokenKind := [.multiply, .divide]

theorem mem_sumKinds {kind : TokenKind} : kind ∈ sumKinds ↔ kind = .plus ∨ kind = .minus := by
  simp [sumKinds]

theorem mem_productKinds {kind : TokenKind} : kind ∈ productKinds ↔ kind = .multiply ∨ kind = .divide := by
  simp [productKinds]

theorem Word.token_inj {kind : TokenKind} {w w' : Word kind} (h : w.token = w'.token) : w = w' := by
  cases w; cases w'; cases h; rfl

theorem Numeral.token_inj {n n' : Numeral} (h : n.token = n'.token) : n = n' := by
  obtain ⟨t, v, hk, hv⟩ := n
  obtain ⟨t', v', hk', hv'⟩ := n'
  cases h
  obtain rfl : v = v' := Option.some.inj (hv.symm.trans hv')
  rfl

namespace Sign

def token : Sign → Token
  | plus w => w.token
  | minus w => w.token

/-- The sign between two terms. -/
def binary : Sign → Operator
  | plus _ => .plus
  | minus _ => .minus

/-- The sign before the first term. -/
def unary : Sign → Operator
  | plus _ => .unaryPlus
  | minus _ => .unaryMinus

theorem kind_mem (s : Sign) : s.token.kind ∈ sumKinds := by
  cases s with
  | plus w => simp [token, w.kind_eq, sumKinds]
  | minus w => simp [token, w.kind_eq, sumKinds]

theorem kind_ne_eof (s : Sign) : s.token.kind ≠ .eof := by
  have h := s.kind_mem
  intro he
  simp [he, sumKinds] at h

theorem isUnary_binary (s : Sign) : s.binary.isUnary = false := by cases s <;> rfl

theorem isUnary_unary (s : Sign) : s.unary.isUnary = true := by cases s <;> rfl

theorem token_inj {s s' : Sign} (h : s.token = s'.token) : s = s' := by
  have hk := congrArg Token.kind h
  cases s with
  | plus w => cases s' with
    | plus w' => rw [Word.token_inj h]
    | minus w' => simp [token, w.kind_eq, w'.kind_eq] at hk
  | minus w => cases s' with
    | plus w' => simp [token, w.kind_eq, w'.kind_eq] at hk
    | minus w' => rw [Word.token_inj h]

end Sign

namespace Times

def token : Times → Token
  | multiply w => w.token
  | divide w => w.token

def operator : Times → Operator
  | multiply _ => .multiply
  | divide _ => .divide

theorem kind_mem (o : Times) : o.token.kind ∈ productKinds := by
  cases o with
  | multiply w => simp [token, w.kind_eq, productKinds]
  | divide w => simp [token, w.kind_eq, productKinds]

theorem kind_ne_eof (o : Times) : o.token.kind ≠ .eof := by
  have h := o.kind_mem
  intro he
  simp [he, productKinds] at h

theorem isUnary_operator (o : Times) : o.operator.isUnary = false := by cases o <;> rfl

theorem token_inj {o o' : Times} (h : o.token = o'.token) : o = o' := by
  have hk := congrArg Token.kind h
  cases o with
  | multiply w => cases o' with
    | multiply w' => rw [Word.token_inj h]
    | divide w' => simp [token, w.kind_eq, w'.kind_eq] at hk
  | divide w => cases o' with
    | multiply w' => simp [token, w.kind_eq, w'.kind_eq] at hk
    | divide w' => rw [Word.token_inj h]

end Times

/-! ## The rules -/

mutual

/-- `expression = [ "+" | "-" ] term { ( "+" | "-" ) term }` -/
inductive Expression where
  | mk (sign : Option Sign) (first : Term) (others : Terms)

/-- `{ ( "+" | "-" ) term }` -/
inductive Terms where
  | nil
  | cons (sign : Sign) (term : Term) (others : Terms)

/-- `term = factor { ( "*" | "/" ) factor }` -/
inductive Term where
  | mk (first : Factor) (others : Factors)

/-- `{ ( "*" | "/" ) factor }` -/
inductive Factors where
  | nil
  | cons (times : Times) (factor : Factor) (others : Factors)

/-- `factor = ident | number | "(" expression ")"` -/
inductive Factor where
  | ident (name : Word .ident)
  | number (n : Numeral)
  | paren (opening : Word .lparen) (inner : Expression) (closing : Word .rparen)

end

mutual

def Expression.words : Expression → List Token
  | .mk none first others => first.words ++ others.words
  | .mk (some sign) first others => sign.token :: (first.words ++ others.words)

def Terms.words : Terms → List Token
  | .nil => []
  | .cons sign term others => sign.token :: (term.words ++ others.words)

def Term.words : Term → List Token
  | .mk first others => first.words ++ others.words

def Factors.words : Factors → List Token
  | .nil => []
  | .cons times factor others => times.token :: (factor.words ++ others.words)

def Factor.words : Factor → List Token
  | .ident name => [name.token]
  | .number n => [n.token]
  | .paren opening inner closing => opening.token :: (inner.words ++ [closing.token])

end

mutual

/-- A leading sign is one node over the first term alone. -/
def Expression.tree : Expression → Expr
  | .mk none first others => others.fold first.tree
  | .mk (some sign) first others => others.fold (.unary sign.unary first.tree)

/-- The terms joined from the left to the sum before them. -/
def Terms.fold : Terms → Expr → Expr
  | .nil, left => left
  | .cons sign term others, left => others.fold (.binary sign.binary left term.tree)

def Term.tree : Term → Expr
  | .mk first others => others.fold first.tree

/-- The factors joined from the left to the product before them. -/
def Factors.fold : Factors → Expr → Expr
  | .nil, left => left
  | .cons times factor others, left => others.fold (.binary times.operator left factor.tree)

/-- Parentheses leave no node. -/
def Factor.tree : Factor → Expr
  | .ident name => .operand (.ident name.token.text)
  | .number n => .operand (.number n.value)
  | .paren _ inner _ => inner.tree

end

/-! ## The words and the tree -/

mutual

theorem Expression.kind_ne_eof : ∀ (d : Expression), ∀ t ∈ d.words, t.kind ≠ .eof
  | .mk none first others, t, ht => by
    rcases List.mem_append.1 ht with ht | ht
    · exact first.kind_ne_eof t ht
    · exact others.kind_ne_eof t ht
  | .mk (some sign) first others, t, ht => by
    rcases List.mem_cons.1 ht with rfl | ht
    · exact sign.kind_ne_eof
    rcases List.mem_append.1 ht with ht | ht
    · exact first.kind_ne_eof t ht
    · exact others.kind_ne_eof t ht

theorem Terms.kind_ne_eof : ∀ (d : Terms), ∀ t ∈ d.words, t.kind ≠ .eof
  | .nil, t, ht => by cases ht
  | .cons sign term others, t, ht => by
    rcases List.mem_cons.1 ht with rfl | ht
    · exact sign.kind_ne_eof
    rcases List.mem_append.1 ht with ht | ht
    · exact term.kind_ne_eof t ht
    · exact others.kind_ne_eof t ht

theorem Term.kind_ne_eof : ∀ (d : Term), ∀ t ∈ d.words, t.kind ≠ .eof
  | .mk first others, t, ht => by
    rcases List.mem_append.1 ht with ht | ht
    · exact first.kind_ne_eof t ht
    · exact others.kind_ne_eof t ht

theorem Factors.kind_ne_eof : ∀ (d : Factors), ∀ t ∈ d.words, t.kind ≠ .eof
  | .nil, t, ht => by cases ht
  | .cons times factor others, t, ht => by
    rcases List.mem_cons.1 ht with rfl | ht
    · exact times.kind_ne_eof
    rcases List.mem_append.1 ht with ht | ht
    · exact factor.kind_ne_eof t ht
    · exact others.kind_ne_eof t ht

theorem Factor.kind_ne_eof : ∀ (d : Factor), ∀ t ∈ d.words, t.kind ≠ .eof
  | .ident name, t, ht => by
    obtain rfl := List.mem_singleton.1 ht
    simp [name.kind_eq]
  | .number n, t, ht => by
    obtain rfl := List.mem_singleton.1 ht
    simp [n.kind_eq]
  | .paren opening inner closing, t, ht => by
    simp only [Factor.words, List.mem_cons, List.mem_append, List.not_mem_nil, or_false] at ht
    rcases ht with rfl | ht | rfl
    · simp [opening.kind_eq]
    · exact inner.kind_ne_eof t ht
    · simp [closing.kind_eq]

end

mutual

/-- What is read has its operators where they belong. -/
theorem Expression.wellFormed : ∀ (d : Expression), d.tree.WellFormed
  | .mk none first others => others.wellFormed_fold first.wellFormed
  | .mk (some sign) first others => others.wellFormed_fold ⟨sign.isUnary_unary, first.wellFormed⟩

theorem Terms.wellFormed_fold : ∀ (d : Terms) {left : Expr}, left.WellFormed → (d.fold left).WellFormed
  | .nil, _, h => h
  | .cons sign term others, _, h => others.wellFormed_fold ⟨sign.isUnary_binary, h, term.wellFormed⟩

theorem Term.wellFormed : ∀ (d : Term), d.tree.WellFormed
  | .mk first others => others.wellFormed_fold first.wellFormed

theorem Factors.wellFormed_fold : ∀ (d : Factors) {left : Expr},
    left.WellFormed → (d.fold left).WellFormed
  | .nil, _, h => h
  | .cons times factor others, _, h =>
    others.wellFormed_fold ⟨times.isUnary_operator, h, factor.wellFormed⟩

theorem Factor.wellFormed : ∀ (d : Factor), d.tree.WellFormed
  | .ident _ | .number _ => trivial
  | .paren _ inner _ => inner.wellFormed

end

/-! ## What stands at the front -/

theorem Ends.mono {kinds kinds' : List TokenKind} {ts : List Token} (h : Ends kinds ts)
    (hsub : kinds' ⊆ kinds) : Ends kinds' ts := fun hm => h (hsub hm)

theorem Ends.ne_cons {kinds : List TokenKind} {ts : List Token} (h : Ends kinds ts) {t : Token}
    (ht : t.kind ∈ kinds) (rest : List Token) : ts ≠ t :: rest := by
  rintro rfl
  exact h ht

theorem Word.ends {kind : TokenKind} (w : Word kind) {kinds : List TokenKind} (h : kind ∉ kinds)
    (r : List Token) : Ends kinds (w.token :: r) := by
  simpa only [Ends, frontOf_cons, w.kind_eq] using h

/-- The kinds with which a factor begins. -/
def factorKinds : List TokenKind := [.ident, .number, .lparen]

theorem Factor.front (d : Factor) (r : List Token) : (frontOf (d.words ++ r)).kind ∈ factorKinds := by
  cases d with
  | ident name => simp [words, name.kind_eq, factorKinds]
  | number n => simp [words, n.kind_eq, factorKinds]
  | paren opening inner closing => simp [words, opening.kind_eq, factorKinds]

theorem Term.front (d : Term) (r : List Token) : (frontOf (d.words ++ r)).kind ∈ factorKinds := by
  obtain ⟨first, others⟩ := d
  rw [words, List.append_assoc]
  exact first.front _

theorem Term.ends (d : Term) (r : List Token) : Ends sumKinds (d.words ++ r) := by
  have hf := d.front r
  intro hs
  rcases mem_sumKinds.1 hs with hk | hk <;> simp [hk, factorKinds] at hf

theorem Terms.ends (d : Terms) {r : List Token} (hr : Ends productKinds r) :
    Ends productKinds (d.words ++ r) := by
  cases d with
  | nil => exact hr
  | cons sign term others =>
    rw [words, List.cons_append, Ends, frontOf_cons]
    rcases mem_sumKinds.1 sign.kind_mem with hk | hk <;> simp [hk, productKinds]

/-- The kinds with which an expression goes on. -/
def expressionKinds : List TokenKind := sumKinds ++ productKinds

theorem Ends.product {r : List Token} (h : Ends expressionKinds r) : Ends productKinds r :=
  h.mono (List.subset_append_right _ _)

end PL0.Phrase
