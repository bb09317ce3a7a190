/-
The layout of a program. The depth of a line is the number of braces that are open before it, less one if it begins with
a closing brace, and one more for every `if` or `while` around it whose body stands in no braces. Main statement:
`emit_layout_follows_braces`.
-/
import PL0.Proofs.JavaScript.Brackets
import PL0.Proofs.JavaScript.Faithful

namespace PL0

open JavaScript Text

/-! ## The rows of a program, each with the guards around it -/

/-- A row, and how many `if` and `while` statements stand around it whose bodies are in no braces. -/
structure PlacedRow where
  guards : Nat
  row : Row

namespace Statement

mutual

def placed (guards : Nat) : Statement → List PlacedRow
  | compound body => ⟨guards, .opening⟩ :: (allPlaced guards body ++ [⟨guards, .closing⟩])
  | assign name value => [⟨guards, .assign name value⟩]
  | call name => [⟨guards, .call name⟩]
  | write value => [⟨guards, .write value⟩]
  | ifThen cond body =>
    ⟨guards, .ifThen cond body.isCompound⟩ ::
      if body.isCompound then (placed guards body).tail else placed (guards + 1) body
  | whileDo cond body =>
    ⟨guards, .whileDo cond body.isCompound⟩ ::
      if body.isCompound then (placed guards body).tail else placed (guards + 1) body

def allPlaced (guards : Nat) : List Statement → List PlacedRow
  | [] => []
  | s :: ss => placed guards s ++ allPlaced guards ss

end

end Statement

mutual

/-- No guard stands around a block, because no statement holds one. -/
def Block.placed : Block → List PlacedRow
  | ⟨symbols, procedures, statement⟩ =>
    symbols.toList.map (fun s => ⟨0, s.row⟩) ++ (Procedure.allPlaced procedures ++ statement.placed 0)

def Procedure.placed : Procedure → List PlacedRow
  | ⟨name, block⟩ => ⟨0, .function name⟩ :: (Block.placed block ++ [⟨0, .closing⟩])

def Procedure.allPlaced : List Procedure → List PlacedRow
  | [] => []
  | p :: ps => Procedure.placed p ++ Procedure.allPlaced ps

end

def Program.placed (p : Program) : List PlacedRow := ⟨0, .prologue⟩ :: (p.block.placed ++ [⟨0, .epilogue⟩])

/-! ## Lines at the depths of their rows -/

/-- Lines inside a number of open braces. Each has the depth of its row: the braces and the guards around it. -/
inductive Arranged (config : Config) : Nat → List (Line Fragment) → List PlacedRow → Prop
  | nil {n : Nat} : Arranged config n [] []
  | cons {n guards depth : Nat} {row : Row} {lines : List (Line Fragment)} {rows : List PlacedRow}
      (hd : n + guards = depth) (plain : row.Plain) (flat : ∀ n, row.nestingAfter n = n)
      (rest : Arranged config n lines rows) :
      Arranged config n (⟨depth, row.fragment config⟩ :: lines) (⟨guards, row⟩ :: rows)
  | braces {n guards depth : Nat} {row closer : Row} {inner lines : List (Line Fragment)}
      {innerRows rows : List PlacedRow} (hd : n + guards = depth) (plain : row.Plain)
      (opens : ∀ n, row.nestingAfter n = n + 1) (closes : row.closer = closer)
      (inside : Arranged config (n + 1) inner innerRows) (rest : Arranged config n lines rows) :
      Arranged config n (⟨depth, row.fragment config⟩ :: (inner ++ ⟨depth, closer.fragment config⟩ :: lines))
        (⟨guards, row⟩ :: (innerRows ++ ⟨guards, closer⟩ :: rows))

section

variable {config : Config} {n : Nat}

namespace Arranged

variable {lines lines' : List (Line Fragment)} {rows rows' : List PlacedRow}

theorem append (h : Arranged config n lines rows) (h' : Arranged config n lines' rows') :
    Arranged config n (lines ++ lines') (rows ++ rows') := by
  induction h with
  | nil => exact h'
  | cons hd plain flat _ ih => exact .cons hd plain flat (ih h')
  | braces hd plain opens closes inside _ _ ih =>
    simp only [List.cons_append, List.append_assoc]
    exact .braces hd plain opens closes inside (ih h')

variable {guards depth : Nat} (row : Row) (hd : n + guards = depth) (plain : row.Plain)

include hd plain

theorem single (flat : ∀ n, row.nestingAfter n = n) :
    Arranged config n [⟨depth, row.fragment config⟩] [⟨guards, row⟩] := .cons hd plain flat .nil

theorem braced (opens : ∀ n, row.nestingAfter n = n + 1) (inside : Arranged config (n + 1) lines rows) :
    Arranged config n (⟨depth, row.fragment config⟩ :: (lines ++ [⟨depth, row.closer.fragment config⟩]))
      (⟨guards, row⟩ :: (rows ++ [⟨guards, row.closer⟩])) := .braces hd plain opens rfl inside .nil

end Arranged

namespace Statement

mutual

theorem arranged : ∀ {s : Statement}, s.Plain → ∀ {n guards depth : Nat}, n + guards = depth →
    Arranged config n (s.code config depth) (s.placed guards)
  | compound _, h, _, _, _, hd => .braced .opening hd trivial (fun _ => rfl) (arranged_all h (by omega))
  | assign name value, h, _, _, _, hd => .single (.assign name value) hd h fun _ => rfl
  | call name, h, _, _, _, hd => .single (.call name) hd h fun _ => rfl
  | write value, h, _, _, _, hd => .single (.write value) hd h fun _ => rfl
  | ifThen cond body, h, n, guards, depth, hd => by
    rw [code_ifThen, placed]
    exact arranged_guarded h.2 (.ifThen cond) hd (fun _ => h.1) (fun _ => rfl) (fun _ => rfl) rfl
  | whileDo cond body, h, n, guards, depth, hd => by
    rw [code_whileDo, placed]
    exact arranged_guarded h.2 (.whileDo cond) hd (fun _ => h.1) (fun _ => rfl) (fun _ => rfl) rfl
termination_by s => (sizeOf s, 0)

/-- The brace around the body of an `if` or a `while` opens on its row. Without one the body has a guard more. -/
theorem arranged_guarded : ∀ {body : Statement}, body.Plain → ∀ (head : Bool → Row) {n guards depth : Nat},
    n + guards = depth → (∀ b, (head b).Plain) → (∀ n, (head true).nestingAfter n = n + 1) →
    (∀ n, (head false).nestingAfter n = n) → (head true).closer = .closing →
    Arranged config n
      (⟨depth, (head body.isCompound).fragment config⟩ ::
        if body.isCompound then (body.code config depth).tail else body.code config (depth + 1))
      (⟨guards, head body.isCompound⟩ ::
        if body.isCompound then (body.placed guards).tail else body.placed (guards + 1))
  | compound _, h, _, _, _, _, hd, plain, opens, _, closes =>
    .braces hd (plain true) opens closes (arranged_all h (by omega)) .nil
  | assign _ _, h, _, _, _, _, hd, plain, _, flat, _ | call _, h, _, _, _, _, hd, plain, _, flat, _
  | write _, h, _, _, _, _, hd, plain, _, flat, _ | ifThen _ _, h, _, _, _, _, hd, plain, _, flat, _
  | whileDo _ _, h, _, _, _, _, hd, plain, _, flat, _ => .cons hd (plain false) flat (arranged h (by omega))
termination_by s => (sizeOf s, 1)

theorem arranged_all : ∀ {ss : List Statement}, AllPlain ss → ∀ {n guards depth : Nat}, n + guards = depth →
    Arranged config n (codeAll config depth ss) (allPlaced guards ss)
  | [], _, _, _, _, _ => .nil
  | _ :: _, h, _, _, _, hd => (arranged h.1 hd).append (arranged_all h.2 hd)
termination_by ss => (sizeOf ss, 0)

end

end Statement

theorem arranged_symbols : ∀ {ss : List Symbol}, (∀ s ∈ ss, s.Plain) →
    Arranged config n (ss.map fun s => textLine n s.code) (ss.map fun s => ⟨0, s.row⟩)
  | [], _ => .nil
  | s :: ss, h => by
    obtain ⟨hs, hss⟩ := List.forall_mem_cons.1 h
    have hrow : (⟨n, s.row.fragment config⟩ : Line Fragment) = textLine n s.code := by rw [s.fragment_row]; rfl
    rw [List.map_cons, ← hrow]
    exact .cons n.add_zero hs (fun _ => rfl) (arranged_symbols hss)

mutual

theorem Block.arranged : ∀ {b : Block}, b.Plain → ∀ n, Arranged config n (b.code config n) b.placed
  | ⟨_, _, _⟩, h, n => by
    rw [Block.code, List.append_assoc]
    exact (arranged_symbols h.1).append ((Procedure.arranged_all h.2.1 n).append (Statement.arranged h.2.2 n.add_zero))

theorem Procedure.arranged : ∀ {p : Procedure}, p.Plain → ∀ n, Arranged config n (p.code config n) p.placed
  | ⟨name, _⟩, h, n => .braced (.function name) n.add_zero h.1 (fun _ => rfl) (Block.arranged h.2 (n + 1))

theorem Procedure.arranged_all : ∀ {ps : List Procedure}, Procedure.AllPlain ps → ∀ n,
    Arranged config n (Procedure.codeAll config n ps) (Procedure.allPlaced ps)
  | [], _, _ => .nil
  | _ :: _, h, n => (Procedure.arranged h.1 n).append (Procedure.arranged_all h.2 n)

end

theorem Program.arranged {p : Program} (h : p.Plain) : Arranged config 0 (p.code config 0) p.placed :=
  .braced .prologue rfl trivial (fun _ => rfl) (Block.arranged h 1)

/-! ## The text of arranged lines -/

variable {lines : List (Line Fragment)} {rows : List PlacedRow}

theorem written_cons (width : Nat) (l : Line Fragment) (ls : List (Line Fragment)) :
    written width (l :: ls) =
      List.replicate (l.depth * width) ' ' ++ (l.content.text.toList ++ '\n' :: written width ls) := by
  simp [written]

theorem written_append (width : Nat) (ls ls' : List (Line Fragment)) :
    written width (ls ++ ls') = written width ls ++ written width ls' := List.flatMap_append

theorem nested_blanks (n : Nat) : Nested Bracket.all (List.replicate n ' ') :=
  .of_forall fun c hc => by rw [List.eq_of_mem_replicate hc]; rfl

/-- The brackets of arranged lines are nested. -/
theorem Arranged.nested (hp : config.printFunction = Config.standard.printFunction)
    (h : Arranged config n lines rows) : Nested Bracket.all (written config.indentWidth lines) := by
  induction h with
  | nil => exact .nil
  | cons _ plain flat _ ih =>
    rw [written_cons]
    exact (nested_blanks _).append ((Row.nested_chars hp plain flat).all.append (.cons (by decide) ih))
  | @braces n guards depth row closer inner lines _ _ _ plain opens closes _ _ ihi ihr =>
    obtain ⟨front, back, he⟩ := Row.encloses_of_opens hp plain opens
    have hrow : (row.fragment config).text.toList = front ++ ['{'] := he.chars_eq
    have hcloser : (closer.fragment config).text.toList = '}' :: back := closes ▸ he.chars_closer
    have hinner : Nested Bracket.all
        ('\n' :: written config.indentWidth inner ++ List.replicate (depth * config.indentWidth) ' ') :=
      (Nested.cons (by decide) ihi).append (nested_blanks _)
    have hpair := he.nested _ (.pair (b := .curly) (by simp [Bracket.all]) hinner .nil)
    rw [written_cons, written_append, written_cons, hrow, hcloser]
    have hall := (nested_blanks (depth * config.indentWidth)).append
      (hpair.append (Nested.cons (c := '\n') (by decide) ihr))
    simpa [Bracket.curly] using hall

theorem count_brace {cs : List Char} (h : ∀ c ∈ cs, c ≠ '{' ∧ c ≠ '}') : cs.count '{' = 0 ∧ cs.count '}' = 0 :=
  ⟨List.count_eq_zero.2 fun hm => (h _ hm).1 rfl, List.count_eq_zero.2 fun hm => (h _ hm).2 rfl⟩

theorem head?_ne_brace {cs : List Char} (h : ∀ c ∈ cs, c ≠ '{' ∧ c ≠ '}') : cs.head? ≠ some '}' :=
  fun he => (h _ (List.mem_of_mem_head? he)).2 rfl

namespace Row.Encloses

variable {row : Row} {front back : List Char}

theorem count_row (h : Encloses config row front back) :
    (row.chars config).count '{' = 1 ∧ (row.chars config).count '}' = 0 := by
  obtain ⟨hopening, hclosing⟩ := count_brace (List.forall_mem_append.1 h.ne_brace).1
  simp [h.chars_eq, hopening, hclosing]

theorem count_closer (h : Encloses config row front back) :
    (row.closer.chars config).count '{' = 0 ∧ (row.closer.chars config).count '}' = 1 := by
  obtain ⟨hopening, hclosing⟩ := count_brace (List.forall_mem_append.1 h.ne_brace).2
  simp [h.chars_closer, hopening, hclosing]

theorem head?_row (h : Encloses config row front back) : (row.chars config).head? ≠ some '}' := by
  have hfront := head?_ne_brace (List.forall_mem_append.1 h.ne_brace).1
  rw [h.chars_eq]
  cases front with
  | nil => simp
  | cons c front => exact hfront

end Row.Encloses

theorem Row.plain_closer (row : Row) : row.closer.Plain := by
  cases row <;> trivial

/-- A line as deep as the braces that are opened and closed before it and the guards around its row make it. -/
def Indented (config : Config) (opened closed : Nat) (line : List Char) (r : PlacedRow) : Prop :=
  ∃ (k : Nat) (c : Char) (cs : List Char), r.row.chars config = c :: cs ∧ c ≠ ' ' ∧
    line = List.replicate (k * config.indentWidth) ' ' ++ c :: cs ∧
    k + closed + (if c = '}' then 1 else 0) = opened + r.guards

/-- Every line of a text that goes on after some braces is indented, and is that of its row. -/
def Laid (config : Config) (opened closed : Nat) (text : List Char) (rows : List PlacedRow) : Prop :=
  ∀ before line after, text = before ++ (line ++ '\n' :: after) → (∀ c ∈ before.getLast?, c = '\n') → '\n' ∉ line →
    ∃ r, rows[before.count '\n']? = some r ∧
      Indented config (opened + before.count '{') (closed + before.count '}') line r

theorem laid_nil (opened closed : Nat) : Laid config opened closed [] [] := fun before line after h => by simp at h

/-- The first line, and those that follow it. -/
theorem Laid.cons {opened closed : Nat} {line text : List Char} {r : PlacedRow}
    (hr : Indented config opened closed line r) (hl : '\n' ∉ line)
    (h : Laid config (opened + line.count '{') (closed + line.count '}') text rows) :
    Laid config opened closed (line ++ '\n' :: text) (r :: rows) := by
  intro before line' after hs hb hl'
  by_cases hn : '\n' ∈ before
  · obtain ⟨first, others, rfl, hf⟩ := List.eq_append_cons_of_mem hn
    rw [List.append_assoc, List.cons_append] at hs
    obtain ⟨rfl, hrest⟩ := append_cons_inj hl hf hs
    obtain ⟨r', hr', hind⟩ := h others line' after hrest
      (fun c hc => hb c (List.mem_getLast?_append_of_mem_getLast? (List.mem_getLast?_cons hc))) hl'
    refine ⟨r', ?_, ?_⟩
    · simpa [List.count_eq_zero.2 hl] using hr'
    · simpa [Nat.add_assoc] using hind
  · obtain rfl : before = [] := by
      by_contra hne
      have hlast := List.getLast?_eq_some_getLast hne
      exact hn (hb _ hlast ▸ List.getLast_mem hne)
    obtain ⟨rfl, -⟩ := append_cons_inj hl hl' hs
    exact ⟨r, rfl, hr⟩

theorem Row.exists_chars_cons {row : Row} (hp : config.printFunction = Config.standard.printFunction) (h : row.Plain) :
    ∃ c cs, row.chars config = c :: cs ∧ c ≠ ' ' := by
  have hne : row.chars config ≠ [] := by
    rw [chars_eq hp h]
    cases row with
    | declare name role => cases role <;> simp [tail]
    | _ => simp [tail, JavaScript.prologue, JavaScript.epilogue]
  obtain ⟨c, cs, hc⟩ := List.exists_cons_of_ne_nil hne
  exact ⟨c, cs, hc, (clean_fragment hp h).2 c (by rw [← chars, hc]; rfl)⟩

/-- A row on a line of its own, and the lines that follow it. -/
theorem Laid.row {opened closed depth guards : Nat} {row : Row} {text : List Char}
    (hp : config.printFunction = Config.standard.printFunction) (plain : row.Plain)
    (hd : depth + closed + (if (row.chars config).head? = some '}' then 1 else 0) = opened + guards)
    (h : Laid config (opened + (row.chars config).count '{') (closed + (row.chars config).count '}') text rows) :
    Laid config opened closed
      (List.replicate (depth * config.indentWidth) ' ' ++ ((row.fragment config).text.toList ++ '\n' :: text))
      (⟨guards, row⟩ :: rows) := by
  have hcount : ∀ c : Char, c ≠ ' ' →
      (List.replicate (depth * config.indentWidth) ' ' ++ row.chars config).count c = (row.chars config).count c :=
    fun c hc => by simp [List.count_replicate, hc.symm]
  obtain ⟨c, cs, hc, hne⟩ := Row.exists_chars_cons hp plain
  have hclean : OneLine (row.chars config) := Row.clean_fragment hp plain
  rw [← hcount '{' (by decide), ← hcount '}' (by decide)] at h
  rw [← List.append_assoc]
  exact .cons ⟨depth, c, cs, hc, hne, congrArg _ hc, by simpa [hc] using hd⟩ (hclean.newline_not_mem _) h

/-- Arranged lines are laid out, whatever braces are open around them. -/
theorem Arranged.laid (hp : config.printFunction = Config.standard.printFunction) {text : List Char}
    {more : List PlacedRow} (h : Arranged config n lines rows)
    (hm : ∀ {opened closed : Nat}, opened = closed + n → Laid config opened closed text more) :
    ∀ {opened closed : Nat}, opened = closed + n →
      Laid config opened closed (written config.indentWidth lines ++ text) (rows ++ more) := by
  induction h generalizing text more with
  | nil => exact hm
  | cons hd plain flat _ ih =>
    intro opened closed ho
    have hnone := (Row.nested_chars hp plain flat).ne_brace
    obtain ⟨hopening, hclosing⟩ := count_brace hnone
    simp only [written_cons, List.append_assoc, List.cons_append]
    refine .row hp plain (by rw [if_neg (head?_ne_brace hnone)]; omega) ?_
    rw [hopening, hclosing]
    exact ih hm ho
  | @braces n guards depth row _ inner lines _ _ hd plain opens closes _ _ ihi ihr =>
    intro opened closed ho
    obtain ⟨front, back, he⟩ := Row.encloses_of_opens hp plain opens
    obtain ⟨hopening, hclosing⟩ := he.count_row
    obtain ⟨hopening', hclosing'⟩ := he.count_closer
    subst closes
    simp only [written_cons, written_append, List.append_assoc, List.cons_append]
    refine .row hp plain (by rw [if_neg he.head?_row]; omega) ?_
    rw [hopening, hclosing]
    -- inside the braces one more is open; the row that closes them is written as it begins with its brace
    refine ihi (fun {opened closed} hi => .row hp row.plain_closer ?_ ?_) (by omega)
    · rw [he.chars_closer, List.head?_cons, if_pos rfl]
      omega
    · rw [hopening', hclosing']
      exact ihr hm (by omega)

/-! ## The text without its blanks -/

/-- The lines of a text without the blanks in front of them. -/
def unindented (text : String) : List (List Char) := (text.toList.splitOn '\n').map (List.dropWhile (· = ' '))

theorem unindented_written {width : Nat} (h : ∀ l ∈ lines, Clean l.content) :
    unindented (String.ofList (written width lines)) = lines.map (·.content.text.toList) ++ [[]] := by
  rw [unindented, String.toList_ofList]
  induction lines with
  | nil => rfl
  | cons l lines ih =>
    obtain ⟨hl, hls⟩ := List.forall_mem_cons.1 h
    have hline : '\n' ∉ List.replicate (l.depth * width) ' ' ++ l.content.text.toList := OneLine.newline_not_mem hl _
    have hblank : ∀ c ∈ List.replicate (l.depth * width) ' ', decide (c = ' ') = true := fun c hc => by
      simp [List.eq_of_mem_replicate hc]
    have hfirst : ∀ c ∈ l.content.text.toList.head?, decide (c = ' ') = false := by simpa using hl.2
    rw [written_cons, ← List.append_assoc, List.splitOn_append_cons_self_of_not_mem hline, List.map_cons, ih hls,
      dropWhile_append_of_front hblank hfirst, List.map_cons, List.cons_append]

section

variable (width width' : Nat) (printFunction : String) (truncate : Bool)

theorem Expr.code_width (e : Expr) :
    e.code ⟨width, printFunction, truncate⟩ = e.code ⟨width', printFunction, truncate⟩ := by
  induction e with
  | operand leaf => cases leaf <;> rfl
  | unary op inner ih => simp only [code, ih]
  | binary op left right ihl ihr => simp only [code, ihl, ihr]

/-- What a row holds does not depend on the blanks before it. -/
theorem Row.chars_width : Row.chars ⟨width, printFunction, truncate⟩ = Row.chars ⟨width', printFunction, truncate⟩ := by
  have hexpr := Expr.code_width width width' printFunction truncate
  have hcond : ∀ c : Condition,
      c.code ⟨width, printFunction, truncate⟩ = c.code ⟨width', printFunction, truncate⟩ := by
    intro c
    cases c <;> simp only [Condition.code, hexpr]
  funext row
  cases row <;> simp only [chars, fragment, Statement.head, hexpr, hcond]

end

theorem unindented_emit (hp : config.printFunction = Config.standard.printFunction) {p : Program} (h : p.Plain) :
    (emit config p).map unindented = .ok (p.rows.map (Row.chars config) ++ [[]]) := by
  rw [emit_of_plain h, ← map_chars_rows, ← unindented_written (clean_code hp h)]
  rfl

theorem getLast?_written {width : Nat} (lines : List (Line Fragment)) (l : Line Fragment) :
    (written width (lines ++ [l])).getLast? = some '\n' := by
  simp [written]

/-- **Layout.** What is written of a program that is read from a text has nested brackets and ends with a line feed.
Every line of it stands as deep as the braces that are open before it, less one if it begins with a closing brace, and
the guards without braces around its row say, and then goes on with its row, which begins with no blank. Without the
blanks in front of the lines, the text is the same for every width. -/
theorem emit_layout_follows_braces (width : Nat) (truncate : Bool) {source : String} {p : Program}
    (h : readSource source = .ok p) :
    ∃ text, emit ⟨width, Config.standard.printFunction, truncate⟩ p = .ok text ∧
      Nested Bracket.all text.toList ∧ text.toList.getLast? = some '\n' ∧
      (∀ before line after, text.toList = before ++ (line ++ '\n' :: after) → (∀ c ∈ before.getLast?, c = '\n') →
        '\n' ∉ line → ∃ r, p.placed[before.count '\n']? = some r ∧
          Indented ⟨width, Config.standard.printFunction, truncate⟩ (before.count '{') (before.count '}') line r) ∧
      ∀ width', (emit ⟨width', Config.standard.printFunction, truncate⟩ p).map unindented = .ok (unindented text) := by
  have hplain := plain_of_readSource h
  have hp : ∀ width, (Config.mk width Config.standard.printFunction truncate).printFunction =
      Config.standard.printFunction := fun _ => rfl
  have harranged : Arranged ⟨width, Config.standard.printFunction, truncate⟩ 0 _ _ := p.arranged hplain
  refine ⟨_, emit_of_plain hplain, ?_, ?_, ?_, ?_⟩
  · rw [String.toList_ofList]
    exact harranged.nested (hp width)
  · rw [String.toList_ofList, Program.code]
    exact getLast?_written _ _
  · rw [String.toList_ofList]
    have hlaid := harranged.laid (hp width) (fun _ => laid_nil _ _) (rfl : 0 = 0 + 0)
    simpa [Laid] using hlaid
  · intro width'
    have hwidth := unindented_emit (hp width) hplain
    rw [emit_of_plain hplain] at hwidth
    rw [unindented_emit (hp width') hplain, Row.chars_width width' width]
    exact hwidth.symm

/-- A guard without braces around one with them. -/
def alternating : Program :=
  ⟨⟨.empty, [], .ifThen (.compare .gt (.operand (.ident "x")) (.operand (.number 9)))
    (.whileDo (.odd (.operand (.ident "x"))) (.compound [.assign "x" (.operand (.number 9))]))⟩⟩

/-- Two braces are open before the assignment, and one guard without braces stands around it. -/
theorem emit_layout_follows_braces_alternating :
    readSource "if x > 9 then while odd x do begin x := 9 end." = .ok alternating ∧
      ∃ r, alternating.placed[3]? = some r ∧ Indented .standard 2 0 "      x = 9;".toList r := by
  have h : readSource "if x > 9 then while odd x do begin x := 9 end." = .ok alternating := by cbv
  have hall : emit .standard alternating = .ok
      ";(function () \x7b\n  if ((x > 9))\n    while (((x % 2) === 1)) \x7b\n      x = 9;\n    \x7d\n\x7d());\n" := by
    cbv
  have hcount : let before := ";(function () \x7b\n  if ((x > 9))\n    while (((x % 2) === 1)) \x7b\n".toList
      before.count '\n' = 3 ∧ before.count '{' = 2 ∧ before.count '}' = 0 := by decide
  obtain ⟨text, htext, -, -, hlines, -⟩ := emit_layout_follows_braces 2 false h
  obtain rfl := Except.ok.inj (hall.symm.trans htext)
  have hline := hlines ";(function () \x7b\n  if ((x > 9))\n    while (((x % 2) === 1)) \x7b\n".toList
    "      x = 9;".toList "    \x7d\n\x7d());\n".toList (by simp) (by simp) (by simp)
  rw [hcount.1, hcount.2.1, hcount.2.2] at hline
  exact ⟨h, hline⟩

end

end PL0
