/-
Phrases of a program: conditions, statements, declarations and blocks as data, in the manner of the phrases of
an expression. Main statement: no word of a program is the end of the input (`Program.kind_ne_eof`).
-/
import PL0.Program
import PL0.Proofs.Declarations.Order
import PL0.Proofs.Phrase.Expression

namespace PL0

/-- The kind of the word that stands for a relation. -/
def Relation.kind : Relation → TokenKind
  | eq => .equal
  | ne => .hash
  | lt => .less
  | le => .lessEqual
  | gt => .greater
  | ge => .greaterEqual

theorem Relation.kind_inj {rel rel' : Relation} (h : rel.kind = rel'.kind) : rel = rel' := by
  revert h
  cases rel <;> cases rel' <;> simp [kind]

theorem Relation.ofKind?_kind (rel : Relation) : ofKind? rel.kind = some rel := by cases rel <;> rfl

theorem Relation.kind_of_ofKind? {kind : TokenKind} {rel : Relation} (h : ofKind? kind = some rel) :
    kind = rel.kind := by
  revert h
  cases kind <;> simp only [ofKind?, Option.some.injEq, reduceCtorEq, false_implies] <;> rintro rfl <;> rfl

namespace Phrase

/-! ## Conditions and statements -/

/-- `comparator = "=" | "#" | "<" | "<=" | ">" | ">="` -/
structure Comparator where
  relation : Relation
  word : Word relation.kind

theorem Comparator.token_inj {c c' : Comparator} (h : c.word.token = c'.word.token) : c = c' := by
  obtain ⟨rel, w⟩ := c
  obtain ⟨rel', w'⟩ := c'
  have hk := congrArg Token.kind h
  rw [w.kind_eq, w'.kind_eq] at hk
  obtain rfl := Relation.kind_inj hk
  exact congrArg _ (Word.token_inj h)

/-- `condition = "odd" expression | expression comparator expression` -/
inductive Condition where
  | odd (keyword : Word .oddKw) (inner : Expression)
  | compare (left : Expression) (comparator : Comparator) (right : Expression)

mutual

/-- The rule `statement`. -/
inductive Statement where
  | assign (name : Word .ident) (becomes : Word .assign) (value : Expression)
  | call (keyword : Word .callKw) (name : Word .ident)
  | write (mark : Word .write) (value : Expression)
  | compound (opening : Word .beginKw) (first : Statement) (others : Statements)
      (closing : Word .endKw)
  | ifThen (keyword : Word .ifKw) (cond : Condition) (thenWord : Word .thenKw) (body : Statement)
  | whileDo (keyword : Word .whileKw) (cond : Condition) (doWord : Word .doKw) (body : Statement)

/-- `{ ";" statement }` -/
inductive Statements where
  | nil
  | cons (semicolon : Word .semicolon) (first : Statement) (others : Statements)

end

def Condition.words : Condition → List Token
  | odd keyword inner => keyword.token :: inner.words
  | compare left comparator right => left.words ++ comparator.word.token :: right.words

mutual

def Statement.words : Statement → List Token
  | .assign name becomes value => name.token :: becomes.token :: value.words
  | .call keyword name => [keyword.token, name.token]
  | .write mark value => mark.token :: value.words
  | .compound opening first others closing =>
    opening.token :: (first.words ++ (others.words ++ [closing.token]))
  | .ifThen keyword cond thenWord body => keyword.token :: (cond.words ++ thenWord.token :: body.words)
  | .whileDo keyword cond doWord body => keyword.token :: (cond.words ++ doWord.token :: body.words)

def Statements.words : Statements → List Token
  | .nil => []
  | .cons semicolon first others => semicolon.token :: (first.words ++ others.words)

end

def Condition.tree : Condition → PL0.Condition
  | odd _ inner => .odd inner.tree
  | compare left comparator right => .compare comparator.relation left.tree right.tree

mutual

def Statement.tree : Statement → PL0.Statement
  | .assign name _ value => .assign name.token.text value.tree
  | .call _ name => .call name.token.text
  | .write _ value => .write value.tree
  | .compound _ first others _ => .compound (first.tree :: others.trees)
  | .ifThen _ cond _ body => .ifThen cond.tree body.tree
  | .whileDo _ cond _ body => .whileDo cond.tree body.tree

def Statements.trees : Statements → List PL0.Statement
  | .nil => []
  | .cons _ first others => first.tree :: others.trees

end

/-! ## Declarations and blocks -/

/-- `item { "," item } ";"` -/
inductive Items (α : Type) where
  | last (item : α) (semicolon : Word .semicolon)
  | more (item : α) (comma : Word .comma) (others : Items α)

/-- `ident "=" number` -/
structure Constant where
  name : Word .ident
  equal : Word .equal
  value : Numeral

/-- `[ "const" constant { "," constant } ";" ] [ "var" ident { "," ident } ";" ]` -/
structure Declared where
  consts : Option (Word .constKw × Items Constant)
  vars : Option (Word .varKw × Items (Word .ident))

mutual

/-- `block = declarations { "procedure" ident ";" block ";" } statement` -/
inductive Block where
  | mk (declared : Declared) (procedures : Procedures) (statement : Statement)

/-- `{ "procedure" ident ";" block ";" }` -/
inductive Procedures where
  | nil
  | cons (keyword : Word .procedureKw) (name : Word .ident) (semicolon : Word .semicolon)
      (body : Block) (closing : Word .semicolon) (others : Procedures)

end

/-- `program = block "."` -/
structure Program where
  block : Block
  dot : Word .dot

namespace Items

variable {α : Type}

def words (f : α → List Token) : Items α → List Token
  | last item semicolon => f item ++ [semicolon.token]
  | more item comma others => f item ++ comma.token :: others.words f

def toList : Items α → List α
  | last item _ => [item]
  | more item _ others => item :: others.toList

end Items

def Constant.words (c : Constant) : List Token := [c.name.token, c.equal.token, c.value.token]

def Constant.symbol (c : Constant) : Symbol :=
  ⟨c.name.token.text, .constant c.value.value, c.name.token.line⟩

def Word.variable (w : Word .ident) : Symbol := ⟨w.token.text, .variable, w.token.line⟩

def Word.single {kind : TokenKind} (w : Word kind) : List Token := [w.token]

/-- The words of a part that may be left out: its keyword and its items. -/
def partWords {α : Type} {kind : TokenKind} (f : α → List Token) :
    Option (Word kind × Items α) → List Token
  | none => []
  | some (keyword, items) => keyword.token :: items.words f

/-- The items of a part that may be left out. -/
def partItems {α : Type} {kind : TokenKind} : Option (Word kind × Items α) → List α
  | none => []
  | some (_, items) => items.toList

def Declared.words (d : Declared) : List Token :=
  partWords Constant.words d.consts ++ partWords Word.single d.vars

/-- The symbols in the order of their declarations, the constants first. -/
def Declared.symbols (d : Declared) : List Symbol :=
  (partItems d.consts).map Constant.symbol ++ (partItems d.vars).map Word.variable

mutual

def Block.words : Block → List Token
  | .mk declared procedures statement => declared.words ++ (procedures.words ++ statement.words)

def Procedures.words : Procedures → List Token
  | .nil => []
  | .cons keyword name semicolon body closing others =>
    keyword.token :: name.token :: semicolon.token :: (body.words ++ closing.token :: others.words)

end

mutual

def Block.tree : Block → PL0.Block
  | .mk declared procedures statement =>
    ⟨.settled declared.symbols, procedures.trees, statement.tree⟩

def Procedures.trees : Procedures → List Procedure
  | .nil => []
  | .cons _ name _ body _ others => ⟨name.token.text, body.tree⟩ :: others.trees

end

def Program.words (d : Program) : List Token := d.block.words ++ [d.dot.token]

def Program.tree (d : Program) : PL0.Program := ⟨d.block.tree⟩

/-! ## No word is the end of the input -/

theorem Word.kind_ne_eof {kind : TokenKind} (w : Word kind) (h : kind ≠ .eof) : w.token.kind ≠ .eof := by
  rwa [w.kind_eq]

theorem Condition.kind_ne_eof (d : Condition) : ∀ t ∈ d.words, t.kind ≠ .eof := by
  intro t ht
  cases d with
  | odd keyword inner =>
    rcases List.mem_cons.1 ht with rfl | ht
    · exact keyword.kind_ne_eof (by decide)
    · exact inner.kind_ne_eof t ht
  | compare left comparator right =>
    rcases List.mem_append.1 ht with ht | ht
    · exact left.kind_ne_eof t ht
    rcases List.mem_cons.1 ht with rfl | ht
    · exact comparator.word.kind_ne_eof (by cases comparator.relation <;> decide)
    · exact right.kind_ne_eof t ht

mutual

theorem Statement.kind_ne_eof : ∀ (d : Statement), ∀ t ∈ d.words, t.kind ≠ .eof
  | .assign name becomes value, t, ht => by
    simp only [Statement.words, List.mem_cons] at ht
    rcases ht with rfl | rfl | ht
    · exact name.kind_ne_eof (by decide)
    · exact becomes.kind_ne_eof (by decide)
    · exact value.kind_ne_eof t ht
  | .call keyword name, t, ht => by
    simp only [Statement.words, List.mem_cons, List.not_mem_nil, or_false] at ht
    rcases ht with rfl | rfl
    · exact keyword.kind_ne_eof (by decide)
    · exact name.kind_ne_eof (by decide)
  | .write mark value, t, ht => by
    rcases List.mem_cons.1 ht with rfl | ht
    · exact mark.kind_ne_eof (by decide)
    · exact value.kind_ne_eof t ht
  | .compound opening first others closing, t, ht => by
    simp only [Statement.words, List.mem_cons, List.mem_append, List.not_mem_nil, or_false] at ht
    rcases ht with rfl | ht | ht | rfl
    · exact opening.kind_ne_eof (by decide)
    · exact first.kind_ne_eof t ht
    · exact others.kind_ne_eof t ht
    · exact closing.kind_ne_eof (by decide)
  | .ifThen keyword cond middle body, t, ht | .whileDo keyword cond middle body, t, ht => by
    simp only [Statement.words, List.mem_cons, List.mem_append] at ht
    rcases ht with rfl | ht | rfl | ht
    · exact keyword.kind_ne_eof (by decide)
    · exact cond.kind_ne_eof t ht
    · exact middle.kind_ne_eof (by decide)
    · exact body.kind_ne_eof t ht

theorem Statements.kind_ne_eof : ∀ (d : Statements), ∀ t ∈ d.words, t.kind ≠ .eof
  | .nil, t, ht => by cases ht
  | .cons semicolon first others, t, ht => by
    simp only [Statements.words, List.mem_cons, List.mem_append] at ht
    rcases ht with rfl | ht | ht
    · exact semicolon.kind_ne_eof (by decide)
    · exact first.kind_ne_eof t ht
    · exact others.kind_ne_eof t ht

end

theorem Items.kind_ne_eof {α : Type} {f : α → List Token} (hf : ∀ a, ∀ t ∈ f a, t.kind ≠ .eof)
    (d : Items α) : ∀ t ∈ d.words f, t.kind ≠ .eof := by
  intro t ht
  induction d with
  | last item semicolon =>
    rcases List.mem_append.1 ht with ht | ht
    · exact hf item t ht
    · rw [List.mem_singleton.1 ht]
      exact semicolon.kind_ne_eof (by decide)
  | more item comma others ih =>
    simp only [Items.words, List.mem_append, List.mem_cons] at ht
    rcases ht with ht | rfl | ht
    · exact hf item t ht
    · exact comma.kind_ne_eof (by decide)
    · exact ih ht

theorem partWords_kind_ne_eof {α : Type} {kind : TokenKind} (hk : kind ≠ .eof) {f : α → List Token}
    (hf : ∀ a, ∀ t ∈ f a, t.kind ≠ .eof) (d : Option (Word kind × Items α)) :
    ∀ t ∈ partWords f d, t.kind ≠ .eof := by
  intro t ht
  cases d with
  | none => cases ht
  | some d =>
    rcases List.mem_cons.1 ht with rfl | ht
    · exact d.1.kind_ne_eof hk
    · exact d.2.kind_ne_eof hf t ht

theorem Declared.kind_ne_eof (d : Declared) : ∀ t ∈ d.words, t.kind ≠ .eof := by
  intro t ht
  rcases List.mem_append.1 ht with ht | ht
  · refine partWords_kind_ne_eof (by decide) (fun c t ht => ?_) _ t ht
    simp only [Constant.words, List.mem_cons, List.not_mem_nil, or_false] at ht
    rcases ht with rfl | rfl | rfl
    · exact c.name.kind_ne_eof (by decide)
    · exact c.equal.kind_ne_eof (by decide)
    · simp [c.value.kind_eq]
  · refine partWords_kind_ne_eof (by decide) (fun w t ht => ?_) _ t ht
    rw [List.mem_singleton.1 ht]
    exact w.kind_ne_eof (by decide)

mutual

theorem Block.kind_ne_eof : ∀ (d : Block), ∀ t ∈ d.words, t.kind ≠ .eof
  | .mk declared procedures statement, t, ht => by
    simp only [Block.words, List.mem_append] at ht
    rcases ht with ht | ht | ht
    · exact declared.kind_ne_eof t ht
    · exact procedures.kind_ne_eof t ht
    · exact statement.kind_ne_eof t ht

theorem Procedures.kind_ne_eof : ∀ (d : Procedures), ∀ t ∈ d.words, t.kind ≠ .eof
  | .nil, t, ht => by cases ht
  | .cons keyword name semicolon body closing others, t, ht => by
    simp only [Procedures.words, List.mem_cons, List.mem_append] at ht
    rcases ht with rfl | rfl | rfl | ht | rfl | ht
    · exact keyword.kind_ne_eof (by decide)
    · exact name.kind_ne_eof (by decide)
    · exact semicolon.kind_ne_eof (by decide)
    · exact body.kind_ne_eof t ht
    · exact closing.kind_ne_eof (by decide)
    · exact others.kind_ne_eof t ht

end

theorem Program.kind_ne_eof (d : Program) : ∀ t ∈ d.words, t.kind ≠ .eof := by
  intro t ht
  rcases List.mem_append.1 ht with ht | ht
  · exact d.block.kind_ne_eof t ht
  · rw [List.mem_singleton.1 ht]
    exact d.dot.kind_ne_eof (by decide)

/-! ## What stands at the front -/

theorem Expression.front (d : Expression) (r : List Token) :
    (frontOf (d.words ++ r)).kind ∈ sumKinds ++ factorKinds := by
  obtain ⟨sign, first, others⟩ := d
  cases sign with
  | none =>
    rw [Expression.words, List.append_assoc]
    exact List.mem_append_right _ (first.front _)
  | some sign => exact List.mem_append_left _ sign.kind_mem

theorem Comparator.ends (c : Comparator) (r : List Token) : Ends expressionKinds (c.word.token :: r) :=
  c.word.ends (by cases c.relation <;> decide) r

/-- The kind of the word with which a statement begins. -/
def Statement.kind : Statement → TokenKind
  | .assign .. => .ident
  | .call .. => .callKw
  | .write .. => .write
  | .compound .. => .beginKw
  | .ifThen .. => .ifKw
  | .whileDo .. => .whileKw

theorem Statement.front (d : Statement) (r : List Token) : (frontOf (d.words ++ r)).kind = d.kind := by
  cases d with
  | assign name becomes value => exact name.kind_eq
  | call keyword name => exact keyword.kind_eq
  | write mark value => exact mark.kind_eq
  | compound opening first others closing => exact opening.kind_eq
  | ifThen keyword cond thenWord body => exact keyword.kind_eq
  | whileDo keyword cond doWord body => exact keyword.kind_eq

theorem Statement.kind_eq_of_append {d d' : Statement} {r r' : List Token}
    (h : d.words ++ r = d'.words ++ r') : d.kind = d'.kind := by
  rw [← d.front r, ← d'.front r', h]

theorem Statements.ends (d : Statements) {kinds : List TokenKind} (hk : .semicolon ∉ kinds)
    {r : List Token} (hr : Ends kinds r) : Ends kinds (d.words ++ r) := by
  cases d with
  | nil => exact hr
  | cons semicolon first others => exact semicolon.ends hk _

theorem Procedures.front (d : Procedures) (s : Statement) (r : List Token) :
    (frontOf (d.words ++ (s.words ++ r))).kind ∈ [.procedureKw, s.kind] := by
  cases d with
  | nil => simp [Procedures.words, s.front]
  | cons keyword name semicolon body closing others =>
    simp [Procedures.words, keyword.kind_eq]

theorem Statement.kind_ne (d : Statement) :
    d.kind ≠ .constKw ∧ d.kind ≠ .varKw ∧ d.kind ≠ .procedureKw := by
  cases d <;> simp [Statement.kind]

theorem partWords_ends {α : Type} {kind : TokenKind} (f : α → List Token) (d : Option (Word kind × Items α))
    {kinds : List TokenKind} (hk : kind ∉ kinds) {r : List Token} (hr : Ends kinds r) :
    Ends kinds (partWords f d ++ r) := by
  cases d with
  | none => exact hr
  | some part => exact part.1.ends hk _

/-- A block goes on after its declarations with a procedure or with its statement. -/
theorem Procedures.ends (d : Procedures) (s : Statement) (r : List Token) :
    Ends [.constKw, .varKw] (d.words ++ (s.words ++ r)) := by
  have hf := d.front s r
  have hs := s.kind_ne
  intro hm
  simp only [List.mem_cons, List.not_mem_nil, or_false] at hf hm
  rcases hf with hf | hf <;> rcases hm with hm | hm <;> simp_all

theorem Statement.ends (d : Statement) (r : List Token) : Ends [.procedureKw] (d.words ++ r) := by
  intro hm
  rw [d.front r, List.mem_singleton] at hm
  exact d.kind_ne.2.2 hm

end Phrase

end PL0
