import Lox.Proofs.Program.Image
import Lox.Proofs.Tree.Faithful

/-!
# Dumps of programs

What reading a text yields is well formed, and the dumps of well-formed statements are faithful. So
two programs that were read from any texts have the same dump if and only if they are equal
(`tfae_dump_reading`): but for the lines of their tokens if these are not dumped, and with them if
they are.
-/

namespace Lox

variable {a b : List Stmt}

/-- Well-formed statements have the same dump if and only if they are equal but for lines. -/
theorem tfae_dump (ha : ∀ s ∈ a, s.WellFormed) (hb : ∀ s ∈ b, s.WellFormed) :
    [dump false a = dump false b,
     equalPrograms (a.map Stmt.erased) (b.map Stmt.erased) = true,
     a.map Stmt.erased = b.map Stmt.erased].TFAE := by
  have ha' : ∀ s ∈ a.map Stmt.erased, s.WellFormed :=
    List.forall_mem_map.2 fun s mem => (ha s mem).without_lines
  have hb' : ∀ s ∈ b.map Stmt.erased, s.WellFormed :=
    List.forall_mem_map.2 fun s mem => (hb s mem).without_lines
  tfae_have 1 → 3 := fun same => (alike_of_dump ha hb same).1
  tfae_have 3 → 1 := dump_congr
  tfae_have 2 ↔ 3 := equalPrograms_iff ha' hb'
  tfae_finish

/-- Well-formed statements have the same dump with lines if and only if they are equal. -/
theorem tfae_dump_lines (ha : ∀ s ∈ a, s.WellFormed) (hb : ∀ s ∈ b, s.WellFormed) :
    [dump true a = dump true b, equalPrograms a b = true, a = b].TFAE := by
  tfae_have 1 → 3 := fun same => (alike_of_dump ha hb same).2 rfl
  tfae_have 3 → 1 := congrArg (dump true)
  tfae_have 2 ↔ 3 := equalPrograms_iff ha hb
  tfae_finish

/-- Take the statements that are yielded from any two texts, with any limits. Without lines they
have the same dump if and only if they are equal after the lines of their tokens were removed. With
lines they have the same dump if and only if they are equal. Equality is that of trees as data, and
it is the same as being the same tree. -/
theorem tfae_dump_reading (source source' : String) (limit limit' : Int) :
    let a := ((scan source).reading limit).1
    let b := ((scan source').reading limit').1
    [dump false a = dump false b,
     equalPrograms (a.map Stmt.erased) (b.map Stmt.erased) = true,
     a.map Stmt.erased = b.map Stmt.erased].TFAE ∧
    [dump true a = dump true b, equalPrograms a b = true, a = b].TFAE :=
  have ha := wellFormed_of_reading limit source
  have hb := wellFormed_of_reading limit' source'
  ⟨tfae_dump ha hb, tfae_dump_lines ha hb⟩

end Lox
