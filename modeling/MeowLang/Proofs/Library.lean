import MeowLang.Library
import MeowLang.Proofs.Program.Equality

/-! The text of the array library as a program. -/
namespace MeowLang

namespace Library

/-- What `map` does with an array and, after its first item, with the rest. -/
def iterBody : List Stmt :=
  [.expr (.cond (.between .equal (.call (.ident "length" 7) [.ident "array" 7] 7)
      (.number 0 7) 7) [.giveBack none 8] none 7) 7,
    .rebind "res" (.call (.ident "push" 10) [.ident "res" 10,
      .call (.ident "f" 10) [.index (.ident "array" 10) (.number 0 10) 10] 10] 10) 10,
    .expr (.call (.ident "iter" 11) [.call (.ident "bottom" 11) [.ident "array" 11] 11] 11) 11]

def mapBody : List Stmt :=
  [.bind "res" (.array [] 5) 5,
    .bind "iter" (.function ["array"] iterBody 6) 6,
    .expr (.call (.ident "iter" 13) [.ident "arr" 13] 13) 13,
    .giveBack (some (.ident "res" 14)) 14]

def furrballProgram : Program :=
  [.load "nya:clawtility" 2, .bind "map" (.function ["arr", "f"] mapBody 4) 4]

theorem ofSource_furrball : Parsed.ofSource furrballSource = .ok ⟨furrballProgram, []⟩ := by
  decide +kernel

/-- It is the only built-in library with a text. -/
theorem eq_furrball_of_source {library : Library} {source : String} (h : library ∈ all)
    (hs : library.source = some source) : library = furrball := by
  simp only [all, List.mem_cons, List.not_mem_nil, or_false] at h
  rcases h with rfl | rfl | rfl | rfl | rfl | rfl
  all_goals first | rfl | cases hs

theorem find?_clawtility : find? "nya:clawtility" = some clawtility := by
  have hprefix : isBuiltIn "nya:clawtility" = true := by decide +kernel
  rw [find?, hprefix, if_pos rfl]
  rfl

end Library

end MeowLang
