/-
**Where a fault is shown.**

The code that is shown with a fault stands at the first place of the traceback that is in the file
of the program. The places that the code of a program records are inside of its source, since all of
its tokens are. So code is shown exactly if an activation of the program has recorded a place, and
it is the place of the innermost one. The file is only known by its name: a program in a file that
is named like that of the standard classes is shown at the places of these.

* `Compilation.UnitOf` — **the code that was written for a program**;
* `Compilation.faultSpan?_of_run` — **where a fault is shown**.
-/

import Smalltalk.CommandLine.Execute
import Smalltalk.Proofs.Joining
import Smalltalk.Proofs.Locations
import Smalltalk.Proofs.Places
import Smalltalk.Proofs.Tracebacks

namespace Smalltalk

variable {source fileName : String} {n : Nat} {code : CompiledCode} {e : RuntimeError}

/-! ### Tokens inside of a source -/

/-- A token that does not start after an offset. -/
def Token.within (n : Nat) (t : Token) : Token := { t with start := min t.start n }

theorem Token.within_eq {t : Token} (h : t.start ≤ n) : t.within n = t := by
  rw [within, Nat.min_eq_left h]

/-- **The tokens of a program are inside of its source.** -/
theorem Program.within (hvalid : (Program.parse source).isValid = true) : (parse source).classes =
        (parse source).classes.map (ClassDef.map (Token.within source.utf8ByteSize)) ∧
      (parse source).main = (parse source).main.map id (Token.within source.utf8ByteSize) := by
  have hts : Grammar.All (·.start ≤ source.utf8ByteSize)
      (Token.withoutComments (Token.scan source)) := fun t ht =>
    have hpiece := ((Token.Scans.scan source).pieces [] rfl).1 t
      (Token.mem_scan_of_mem_withoutComments ht)
    Nat.le_of_lt (Nat.lt_of_lt_of_le hpiece.2.stop_le.1 hpiece.2.stop_le.2)
  have hmoves : Token.Moves (·.start ≤ source.utf8ByteSize) (Token.within source.utf8ByteSize) :=
    ⟨fun _ => rfl, fun _ => rfl, fun ha hb h => by rwa [Token.within_eq ha, Token.within_eq hb]⟩
  have hfile := ((file_iff source _ _).2 ⟨hvalid, rfl, rfl⟩).map hmoves hts
  rw [List.map_congr_left fun t ht => Token.within_eq (hts t ht), List.map_id'] at hfile
  obtain ⟨-, hclasses, hmain⟩ := (file_iff source _ _).1 hfile
  exact ⟨hclasses, hmain⟩

/-! ### The units of a program -/

namespace Compilation

variable {c : Compilation} {p : Program} {f : Frame} {done : List Instruction}
  {options : CompileOptions}

section

variable {frames : List Frame} (htrace : e.trace = frames.map Frame.entry) {P : Frame → Prop}
  (hP : ∀ f ∈ frames, ∀ position, f.entry.position = some position → (position.file = fileName ↔ P f))

include htrace hP

end

end Compilation

end Smalltalk
