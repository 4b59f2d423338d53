/-! Texts measured in units of sixteen bits: a character beyond the first plane takes two. -/
namespace MeowLang.Text

def units (c : Char) : Nat := if c.toNat < 0x10000 then 1 else 2

def unitLength (s : List Char) : Nat := s.foldr (fun c n => units c + n) 0

/-- How many characters it takes to reach `n` units; a character that is cut by them counts. -/
def charsWithin : Nat → List Char → Nat
  | 0, _ => 0
  | _, [] => 0
  | n, c :: cs => charsWithin (n - units c) cs + 1

end MeowLang.Text
