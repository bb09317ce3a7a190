/-
Expressions in JavaScript are expressions of PL/0. The text of an expression is an operand or stands in
parentheses, so in front of any text that does not go on with a word it scans to the words of one factor,
and the tree of that factor is the expression. Main statement: `parseExpression_of_visit`.
-/
import PL0.Proofs.JavaScript.Expression
import PL0.Proofs.JavaScript.Walk

namespace PL0

open Phrase JavaScript

/-- The names that an expression refers to, from left to right. -/
def Expr.names : Expr → List String
  | .operand (.number _) => []
  | .operand (.ident name) => [name]
  | .unary _ inner => inner.names
  | .binary _ left right => left.names ++ right.names

theorem rename_of_not_mem {name : String} (h : name ∉ reservedWords) : rename name = name := if_neg h

/-! ## Scanning it -/

/-- The kind of the sign that an operator is written with. -/
def Operator.kind : Operator → TokenKind
  | .unaryPlus | .plus => .plus
  | .unaryMinus | .minus => .minus
  | .multiply => .multiply
  | .divide => .divide

theorem Operator.symbol_mem (op : Operator) : (op.symbol.toList, op.kind) ∈ symbols := by
  cases op <;> decide

variable {config : Config} {p : Place} {rest : List Char}

theorem scanFrom_operator (op : Operator) :
    scanFrom p (op.symbol.toList ++ rest) =
      (.plain op.kind op.symbol p.line :: ·) <$> scanFrom (p.after op.symbol.toList) rest := by
  have hg : ∀ c ∈ rest.head?, Lexeme.goesOn ⟨.symbol op.kind, op.symbol.toList⟩ c = false := by
    intro c _
    cases op <;> simp [Lexeme.goesOn, symbols, Operator.symbol]
  rw [scanFrom_symbol op.symbol_mem hg, String.ofList_toList]

theorem scanFrom_opening :
    scanFrom p ('(' :: rest) = (.plain .lparen "(" p.line :: ·) <$> scanFrom (p.after ['(']) rest :=
  scanFrom_symbol (by decide : (['('], .lparen) ∈ symbols) (fun c _ => by simp [Lexeme.goesOn, symbols])

theorem scanFrom_closing :
    scanFrom p (')' :: rest) = (.plain .rparen ")" p.line :: ·) <$> scanFrom (p.after [')']) rest :=
  scanFrom_symbol (by decide : ([')'], .rparen) ∈ symbols) (fun c _ => by simp [Lexeme.goesOn, symbols])

/-! ## Reading it -/

/-- The word of a kind with a text, on a line. -/
def plainWord (kind : TokenKind) (text : String) (line : Nat) : Word kind := ⟨.plain kind text line, rfl⟩

/-- A factor that stands alone. -/
theorem exists_alone (f : Factor) : ∃ d : Expression, d.words = f.words ∧ d.tree = f.tree :=
  ⟨.mk none (.mk f .nil) .nil, by simp [Expression.words, Term.words, Factors.words, Terms.words], rfl⟩

/-- A leading sign before a factor. -/
theorem exists_signed {op : Operator} (h : op.isUnary = true) (f : Factor) (line : Nat) :
    ∃ d : Expression, d.words = .plain op.kind op.symbol line :: f.words ∧ d.tree = .unary op f.tree := by
  have hw : ∀ sign : Sign, (Expression.mk (some sign) (.mk f .nil) .nil).words = sign.token :: f.words := by
    simp [Expression.words, Term.words, Factors.words, Terms.words]
  cases op with
  | unaryPlus => exact ⟨_, hw (.plus (plainWord .plus "+" line)), rfl⟩
  | unaryMinus => exact ⟨_, hw (.minus (plainWord .minus "-" line)), rfl⟩
  | plus => cases h
  | minus => cases h
  | multiply => cases h
  | divide => cases h

/-- Two factors and an operator between them. -/
theorem exists_joined {op : Operator} (h : op.isUnary = false) (f g : Factor) (line : Nat) :
    ∃ d : Expression, d.words = f.words ++ .plain op.kind op.symbol line :: g.words ∧
      d.tree = .binary op f.tree g.tree := by
  have hs : ∀ sign : Sign, (Expression.mk none (.mk f .nil) (.cons sign (.mk g .nil) .nil)).words =
      f.words ++ sign.token :: g.words := by
    simp [Expression.words, Term.words, Factors.words, Terms.words]
  have ht : ∀ times : Times, (Expression.mk none (.mk f (.cons times g .nil)) .nil).words =
      f.words ++ times.token :: g.words := by
    simp [Expression.words, Term.words, Factors.words, Terms.words]
  cases op with
  | unaryPlus => cases h
  | unaryMinus => cases h
  | plus => exact ⟨_, hs (.plus (plainWord .plus "+" line)), rfl⟩
  | minus => exact ⟨_, hs (.minus (plainWord .minus "-" line)), rfl⟩
  | multiply => exact ⟨_, ht (.multiply (plainWord .multiply "*" line)), rfl⟩
  | divide => exact ⟨_, ht (.divide (plainWord .divide "/" line)), rfl⟩

/-- A text that scans to an expression scans to a factor in parentheses. -/
theorem exists_parenthesised {d : Expression} {cs : List Char}
    (h : scanFrom (p.after ['(']) (cs ++ ')' :: rest) =
      (d.words ++ ·) <$> scanFrom ((p.after ['(']).after cs) (')' :: rest)) :
    ∃ f : Factor, f.tree = d.tree ∧
      scanFrom p ('(' :: (cs ++ [')']) ++ rest) =
        (f.words ++ ·) <$> scanFrom (p.after ('(' :: (cs ++ [')']))) rest := by
  have hp : p.after ('(' :: (cs ++ [')'])) = ((p.after ['(']).after cs).after [')'] := by
    rw [← Place.after_append, ← Place.after_append]
    rfl
  refine ⟨.paren (plainWord .lparen "(" p.line) d
    (plainWord .rparen ")" ((p.after ['(']).after cs).line), rfl, ?_⟩
  rw [List.cons_append, List.append_assoc, List.singleton_append, scanFrom_opening, h, scanFrom_closing, hp]
  simp only [Functor.map_map, Factor.words, List.cons_append, List.append_assoc, List.nil_append]
  rfl

/-- The text of an expression scans to the words of a factor that is the expression. -/
theorem exists_factor (ht : config.truncateDivision = false) {e : Expr} (hp : e.Plain)
    (hn : ∀ name ∈ e.names, name ∉ reservedWords) (hr : Apart rest) :
    ∃ f : Factor, f.tree = e ∧
      scanFrom p (e.chars config ++ rest) = (f.words ++ ·) <$> scanFrom (p.after (e.chars config)) rest := by
  induction e generalizing p rest with
  | operand leaf =>
    cases leaf with
    | number v =>
      refine ⟨.number ⟨⟨.number, toString v, some v, p.line⟩, v, rfl, rfl⟩, rfl, ?_⟩
      rw [Expr.chars_operand_number, literal_of_nonneg hp]
      exact scanFrom_toString hp hr.isWordPart
    | ident name =>
      refine ⟨.ident (plainWord .ident name p.line), rfl, ?_⟩
      rw [Expr.chars_operand_ident, rename_of_not_mem (hn name List.mem_cons_self)]
      exact scanFrom_name hp hr.isWordPart
  | unary op inner ih =>
    have hc : Apart (')' :: rest) := apart_cons (by decide) rest
    obtain ⟨f, rfl, hf⟩ := ih hp.2 hn (p := (p.after ['(']).after op.symbol.toList) hc
    obtain ⟨d, hw, hd⟩ := exists_signed hp.1 f (p.after ['(']).line
    rw [Expr.chars_unary hp.1 hp.2.wellFormed, ← hd, ← List.append_assoc]
    refine exists_parenthesised ?_
    rw [List.append_assoc, scanFrom_operator, hf, hw, Place.after_append]
    simp only [Functor.map_map, List.cons_append]
  | binary op left right ihl ihr =>
    have hc : Apart (')' :: rest) := apart_cons (by decide) rest
    obtain ⟨f, rfl, hf⟩ := ihl hp.2.1 (fun name hm => hn name (List.mem_append_left _ hm))
      (p := p.after ['(']) (Expr.apart_symbol op (right.chars config ++ ')' :: rest))
    obtain ⟨g, rfl, hg⟩ := ihr hp.2.2 (fun name hm => hn name (List.mem_append_right _ hm))
      (p := ((p.after ['(']).after (f.tree.chars config)).after op.symbol.toList) hc
    obtain ⟨d, hw, hd⟩ := exists_joined hp.1 f g ((p.after ['(']).after (f.tree.chars config)).line
    rw [Expr.chars_binary hp.1 hp.2.1.wellFormed hp.2.2.wellFormed (by simp [ht]), ← hd,
      ← List.append_assoc, ← List.append_assoc]
    refine exists_parenthesised ?_
    rw [List.append_assoc, List.append_assoc, hf, scanFrom_operator, hg, hw, Place.after_append,
      Place.after_append]
    simp only [Functor.map_map, List.cons_append, List.append_assoc]

/-- **An expression reads back.** What is written of a plain expression that has no reserved name, with its
quotients left as they are, is scanned and read as the same expression. -/
theorem parseExpression_of_visit {em : Emitter} (ht : em.config.truncateDivision = false) {e : Expr}
    (hp : e.Plain) (hn : ∀ name ∈ e.names, name ∉ reservedWords) :
    ∃ text tokens, em.visit (.expr e) = (.ok (), { em with output := em.output ++ text }) ∧
      scan text = .ok tokens ∧ parseExpression tokens = .ok e := by
  obtain ⟨f, rfl, hf⟩ := exists_factor (p := .start) ht hp hn apart_nil
  rw [List.append_nil, scanFrom_nil] at hf
  obtain ⟨d, hw, hd⟩ := exists_alone f
  refine ⟨(f.tree.code em.config).text, _, em.visit_expr hp.wellFormed, hf, ?_⟩
  rw [← hd]
  exact parseExpression_of_phrase d (by rw [hw, beforeEnd_append f.kind_ne_eof rfl])

/-- Signs of both kinds beside a quotient. -/
theorem parseExpression_of_visit_signs :
    ∃ tokens, scan "(-(x/(-7)))" = .ok tokens ∧ parseExpression tokens =
      .ok (.unary .unaryMinus (.binary .divide (.operand (.ident "x"))
        (.unary .unaryMinus (.operand (.number 7))))) := by
  have hx : IsName "x" := ⟨⟨'x', [], rfl, by decide, by simp⟩, by decide⟩
  have h7 : (0 : Int64) ≤ 7 := by decide
  have ht : (Emitter.start .standard).config.truncateDivision = false := rfl
  obtain ⟨text, tokens, hw, hs, hp⟩ := parseExpression_of_visit ht
    (e := .unary .unaryMinus (.binary .divide (.operand (.ident "x"))
      (.unary .unaryMinus (.operand (.number 7)))))
    ⟨rfl, rfl, hx, rfl, h7⟩ (by decide)
  have htext : "(-(x/(-7)))" = "" ++ text := congrArg (·.2.output) hw
  rw [String.empty_append] at htext
  exact ⟨tokens, htext ▸ hs, hp⟩

end PL0
