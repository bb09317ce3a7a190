/-
Renaming keeps what names refer to. In JavaScript a block declares its names renamed, and no two names that can be
scanned are renamed alike. So the first declaration of a renamed name in a renamed block is the renamed first
declaration of the name, and a walk outwards over renamed blocks stops where the walk over the blocks does. Main
statement: `Scope.resolve?_renamed`.
-/
import PL0.Proofs.JavaScript.Declared
import PL0.Proofs.Nesting

namespace PL0

open JavaScript

/-! ## Renamed blocks -/

def Symbol.renamed (s : Symbol) : Symbol := { s with name := rename s.name }

/-- The symbols renamed and declared one after another. -/
def Declarations.renamed (d : Declarations) : Declarations := .ofList (d.toList.map Symbol.renamed)

mutual

/-- The block with every name renamed that it declares or that a block inside declares. -/
def Block.renamed : Block → Block
  | ⟨symbols, procedures, statement⟩ => ⟨symbols.renamed, Procedure.allRenamed procedures, statement⟩

def Procedure.renamed : Procedure → Procedure
  | ⟨name, block⟩ => ⟨rename name, Block.renamed block⟩

def Procedure.allRenamed : List Procedure → List Procedure
  | [] => []
  | p :: ps => Procedure.renamed p :: Procedure.allRenamed ps

end

def Binding.renamed : Binding → Binding
  | symbol s => symbol s.renamed
  | procedure p => procedure p.renamed

/-- The same distance to the renamed binding. -/
def Resolution.renamed (r : Resolution) : Resolution := { r with binding := r.binding.renamed }

/-- The scope with every block renamed. -/
def Scope.renamed (s : Scope) : Scope := ⟨s.block.renamed, s.enclosing.map Block.renamed⟩

theorem Procedure.name_renamed (p : Procedure) : p.renamed.name = rename p.name := by
  obtain ⟨name, block⟩ := p
  rfl

theorem Procedure.allRenamed_eq (ps : List Procedure) : allRenamed ps = ps.map Procedure.renamed := by
  induction ps with
  | nil => rfl
  | cons p ps ih => rw [allRenamed, ih, List.map_cons]

theorem Block.symbols_renamed (b : Block) : b.renamed.symbols = b.symbols.renamed := by
  obtain ⟨symbols, procedures, statement⟩ := b
  rfl

theorem Block.procedures_renamed (b : Block) : b.renamed.procedures = b.procedures.map Procedure.renamed := by
  obtain ⟨symbols, procedures, statement⟩ := b
  exact Procedure.allRenamed_eq procedures

/-! ## Declarations under different names -/

theorem Symbol.declare_of_notMem {s : Symbol} {ts : List Symbol} (h : s.name ∉ ts.map (·.name)) :
    s.declare ts = ts ++ [s] := by
  induction ts with
  | nil => rfl
  | cons t ts ih =>
    rw [List.map_cons, List.mem_cons, not_or] at h
    rw [declare, if_neg (Ne.symm h.1), ih h.2, List.cons_append]

/-- Symbols of different names are declared as they come. -/
theorem Declarations.toList_ofList {ss : List Symbol} (h : (ss.map (·.name)).Nodup) : (ofList ss).toList = ss := by
  induction ss using List.reverseRecOn with
  | nil => rfl
  | append_singleton ss s ih =>
    rw [List.map_append, List.map_singleton, List.nodup_append'] at h
    have hnew : s.name ∉ ss.map (·.name) := fun hm => h.2.2 hm List.mem_cons_self
    have hinsert : ((ofList ss).insert s).toList = s.declare (ofList ss).toList := rfl
    rw [ofList_append_singleton, hinsert, ih h.1, Symbol.declare_of_notMem hnew]

section

variable {name : String}

/-- The first entry of a renamed name in a renamed list is the renamed first entry of the name. -/
theorem find?_map_rename {α : Type} (nameOf : α → String) {f : α → α} (hf : ∀ a, nameOf (f a) = rename (nameOf a))
    {entries : List α} (hentries : ∀ a ∈ entries, IsName (nameOf a)) (hn : IsName name) :
    (entries.map f).find? (nameOf · == rename name) = (entries.find? (nameOf · == name)).map f := by
  induction entries with
  | nil => rfl
  | cons a entries ih =>
    obtain ⟨ha, hentries⟩ := List.forall_mem_cons.1 hentries
    rw [List.map_cons, List.find?_cons, List.find?_cons, hf, ih hentries]
    by_cases he : nameOf a = name
    · simp [he]
    · have hne : rename (nameOf a) ≠ rename name := fun hr => he (rename_inj ha hn hr)
      rw [beq_eq_false_iff_ne.2 hne, beq_eq_false_iff_ne.2 he]

namespace Declarations

variable {d : Declarations}

theorem toList_renamed (hd : ∀ name ∈ d.names, IsName name) : d.renamed.toList = d.toList.map Symbol.renamed := by
  refine toList_ofList ?_
  have hnames : (d.toList.map Symbol.renamed).map (·.name) = d.names.map rename := by
    rw [names, List.map_map, List.map_map]
    rfl
  rw [hnames]
  exact d.nodup_names.map_on fun name hm name' hm' he => rename_inj (hd name hm) (hd name' hm') he

theorem get?_renamed (hd : ∀ name ∈ d.names, IsName name) (hn : IsName name) :
    d.renamed.get? (rename name) = (d.get? name).map Symbol.renamed := by
  rw [get?, toList_renamed hd]
  exact find?_map_rename Symbol.name (fun _ => rfl) (List.forall_mem_map.1 hd) hn

end Declarations

/-! ## The walk outwards -/

namespace Block

variable {b : Block}

/-- The names of a renamed block are the renamed names. -/
theorem names_renamed (hb : ∀ name ∈ b.names, IsName name) : b.renamed.names = b.names.map rename := by
  have hd : ∀ name ∈ b.symbols.names, IsName name := fun name hm => hb name (List.mem_append_left _ hm)
  rw [names, names, symbols_renamed, procedures_renamed, Declarations.names, Declarations.toList_renamed hd,
    List.map_append, Declarations.names, List.map_map, List.map_map, List.map_map, List.map_map]
  exact congrArg _ (List.map_congr_left fun p _ => p.name_renamed)

theorem binding?_renamed (hb : ∀ name ∈ b.names, IsName name) (hn : IsName name) :
    b.renamed.binding? (rename name) = (b.binding? name).map Binding.renamed := by
  obtain ⟨hd, hp⟩ := List.forall_mem_append.1 hb
  have hprocedure : b.renamed.procedure? (rename name) = (b.procedure? name).map Procedure.renamed := by
    rw [procedure?, procedures_renamed]
    exact find?_map_rename Procedure.name Procedure.name_renamed (List.forall_mem_map.1 hp) hn
  rw [binding?, binding?, symbols_renamed, Declarations.get?_renamed hd hn, hprocedure]
  cases b.symbols.get? name with
  | some s => rfl
  | none => cases b.procedure? name <;> rfl

end Block

namespace Scope

theorem find?_renamed {bs : List Block} (hbs : ∀ b ∈ bs, ∀ name ∈ b.names, IsName name) (hn : IsName name) :
    find? (rename name) (bs.map Block.renamed) = (find? name bs).map Resolution.renamed := by
  induction bs with
  | nil => rfl
  | cons b outer ih =>
    obtain ⟨hb, houter⟩ := List.forall_mem_cons.1 hbs
    rw [List.map_cons, find?, find?, Block.binding?_renamed hb hn, ih houter]
    cases b.binding? name with
    | some binding => rfl
    | none => cases find? name outer <;> rfl

end Scope

end

/-- **Renaming.** Where all names that the blocks of a scope declare can be scanned, each block declares in JavaScript
the names of the renamed block. A name that can be scanned is not reserved there once it is renamed, no other one is
renamed like it, and it refers in the renamed scope to the renamed declaration that it refers to in the scope, at the
same distance, or to nothing in both. -/
theorem Scope.resolve?_renamed {s : Scope} (hs : ∀ b ∈ s.blocks, ∀ name ∈ b.names, IsName name) :
    (∀ b ∈ s.blocks, declared b.rows = b.renamed.names ∧
      ∀ config depth, contents (b.code config depth) = b.rows.map (Row.fragment config)) ∧
    ∀ name, IsName name → rename name ∉ reservedWords ∧
      (∀ name', IsName name' → rename name = rename name' → name = name') ∧
      s.renamed.resolve? (rename name) = (s.resolve? name).map Resolution.renamed := by
  refine ⟨fun b hb => ⟨?_, fun config depth => b.contents_code depth⟩, fun name hn => ⟨?_, ?_, ?_⟩⟩
  · rw [b.declared_rows, Block.names_renamed (hs b hb)]
  · exact rename_not_mem_reservedWords name
  · exact fun name' hn' => rename_inj hn hn'
  · exact find?_renamed hs hn

/-- A constant of a name that JavaScript reserves. -/
def inmost : Block := ⟨.ofList [⟨"in", .constant 2, 1⟩], [], .write (.operand (.ident "in"))⟩

/-- A variable of the same name, and the procedure `p` whose block declares the constant. -/
def surrounding : Block := ⟨.ofList [⟨"in", .variable, 1⟩], [⟨"p", inmost⟩], .call "p"⟩

/-- In the procedure `$in` is the constant, and `p` is the procedure one block out. -/
theorem Scope.resolve?_renamed_inmost :
    (∀ b ∈ ((root surrounding).child inmost).blocks, ∀ name ∈ b.names, IsName name) ∧
      ((root surrounding).child inmost).renamed.resolve? "$in" = some ⟨.symbol ⟨"$in", .constant 2, 1⟩, 0⟩ ∧
      ((root surrounding).child inmost).renamed.resolve? "p" = some ⟨.procedure ⟨"p", inmost.renamed⟩, 1⟩ ∧
      declared surrounding.rows = ["$in", "p"] := by
  have hin : IsName "in" := ⟨⟨'i', ['n'], rfl, by decide, List.forall_mem_singleton.2 (by decide)⟩, by decide⟩
  have hp : IsName "p" := ⟨⟨'p', [], rfl, by decide, by simp⟩, by decide⟩
  have hinmost : inmost.names = ["in"] := by decide
  have hsurrounding : surrounding.names = ["in", "p"] := by decide
  have hs : ∀ b ∈ ((root surrounding).child inmost).blocks, ∀ name ∈ b.names, IsName name := by
    simp [blocks, root, child, hinmost, hsurrounding, hin, hp]
  obtain ⟨hdeclared, hresolve⟩ := resolve?_renamed hs
  obtain ⟨-, -, hconstant⟩ := hresolve "in" hin
  obtain ⟨-, -, hprocedure⟩ := hresolve "p" hp
  exact ⟨hs, hconstant, hprocedure, (hdeclared surrounding (by simp [blocks, root, child])).1⟩

end PL0
