/-
Names in JavaScript. A name that JavaScript reserves, or that the emitted text itself relies on, is renamed
by a mark before it that no name of PL/0 contains; every other name is kept. Main statement: different
names without the mark stay different (`rename_injective`).
-/

namespace PL0.JavaScript

/-- The names that may not be declared, in the order of their code points. -/
def reservedWords : List String :=
  ["Infinity", "Math", "NaN", "arguments", "await", "break", "case", "catch", "class", "console",
   "const", "continue", "debugger", "default", "delete", "do", "else", "enum", "eval", "export",
   "extends", "false", "finally", "for", "function", "if", "implements", "import", "in", "instanceof",
   "interface", "let", "new", "null", "package", "private", "protected", "public", "return", "static",
   "super", "switch", "this", "throw", "true", "try", "typeof", "undefined", "var", "void", "while",
   "with", "yield"]

/-- The mark before a renamed name. -/
def renameMark : String := "$"

/-- A name as it is declared and used in JavaScript. -/
def rename (name : String) : String := if name ∈ reservedWords then renameMark ++ name else name

theorem toList_rename (name : String) :
    (rename name).toList = if name ∈ reservedWords then '$' :: name.toList else name.toList := by
  unfold rename
  split <;> simp [renameMark]

/-- Different names without the mark are renamed differently. -/
theorem rename_injective {a b : String} (ha : '$' ∉ a.toList) (hb : '$' ∉ b.toList)
    (h : rename a = rename b) : a = b := by
  have h' := congrArg String.toList h
  rw [toList_rename, toList_rename] at h'
  split at h' <;> split at h'
  · exact String.toList_injective (List.cons.inj h').2
  · exact absurd (h' ▸ List.mem_cons_self) hb
  · exact absurd (h'.symm ▸ List.mem_cons_self) ha
  · exact String.toList_injective h'

end PL0.JavaScript
