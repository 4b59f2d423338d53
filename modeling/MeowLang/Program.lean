import MeowLang.Program.Outline

/-! Programs: statements and expressions, each with the line of the token that makes
it what it is. An embedding program can hand in programs with lines of its own choice and
with nodes of neither kind; the parser makes none of these. -/
namespace MeowLang

mutual

inductive Expr where
  | ident (name : String) (line : Int)
  | number (value : Float) (line : Int)
  | string (body : String) (line : Int)
  | bool (value : Bool) (line : Int)
  | array (items : List Expr) (line : Int)
  | object (entries : List (Expr × Expr)) (line : Int)
  | prefixed (op : Op) (operand : Expr) (line : Int)
  | between (op : Op) (left right : Expr) (line : Int)
  | cond (test : Expr) (yes : List Stmt) (no : Option (List Stmt)) (line : Int)
  | function (params : List String) (body : List Stmt) (line : Int)
  | call (callee : Expr) (args : List Expr) (line : Int)
  | index (collection position : Expr) (line : Int)
  | kindOf (operand : Expr) (line : Int)
  | loop (body : List Stmt) (line : Int)
  | foreign (node : Outline)

inductive Stmt where
  | bind (name : String) (value : Expr) (line : Int)
  | rebind (name : String) (value : Expr) (line : Int)
  | giveBack (value : Option Expr) (line : Int)
  | expr (value : Expr) (line : Int)
  | load (name : String) (line : Int)
  | leave (line : Int)
  | again (line : Int)
  | foreign (node : Outline)

end

instance : Inhabited Expr := ⟨.foreign .nothing⟩

abbrev Program := List Stmt

/-- The line of an expression; a foreign node has none. -/
def Expr.line : Expr → Int
  | ident _ line | number _ line | string _ line | bool _ line | array _ line | object _ line
  | prefixed _ _ line | between _ _ _ line | cond _ _ _ line | function _ _ line
  | call _ _ line | index _ _ line | kindOf _ line | loop _ line => line
  | foreign _ => 0

def Stmt.line : Stmt → Int
  | bind _ _ line | rebind _ _ line | giveBack _ line | expr _ line | load _ line
  | leave line | again line => line
  | foreign _ => 0

end MeowLang
