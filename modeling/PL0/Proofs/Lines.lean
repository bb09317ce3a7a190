/-
Programs without the lines of their symbols. Two programs that are equal without them differ in nothing but
the lines on which their names are declared.
-/
import PL0.Program

namespace PL0

def Symbol.eraseLine (s : Symbol) : Symbol := { s with line := 0 }

def Declarations.eraseLines (d : Declarations) : Declarations where
  toList := d.toList.map Symbol.eraseLine
  nodup := by
    rw [List.map_map]
    exact d.nodup

theorem Declarations.ext_toList {d d' : Declarations} (h : d.toList = d'.toList) : d = d' := by
  cases d; cases d'; cases h; rfl

mutual

def Block.eraseLines : Block → Block
  | ⟨symbols, procedures, statement⟩ =>
    ⟨symbols.eraseLines, Procedure.eraseAllLines procedures, statement⟩

def Procedure.eraseLines : Procedure → Procedure
  | ⟨name, block⟩ => ⟨name, Block.eraseLines block⟩

def Procedure.eraseAllLines : List Procedure → List Procedure
  | [] => []
  | p :: ps => Procedure.eraseLines p :: Procedure.eraseAllLines ps

end

/-- A program without the lines of its symbols. -/
def Program.eraseLines (p : Program) : Program := ⟨p.block.eraseLines⟩

end PL0
