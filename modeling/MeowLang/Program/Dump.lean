import MeowLang.Program
import MeowLang.Token.Lexer

/-! Dumps of tokens and programs, for looking at what was read. -/
namespace MeowLang

def Token.dump (t : Token) : String :=
  let value : Outline :=
    match t.terminal with
    | .eof => .nothing
    | .number x => .number x
    | .boolean b => .truth b
    | .string s => .text s
    | _ => .text t.lexeme
  "Token(" ++ t.terminal.kind.name ++ ", " ++ value.render ++ ", line=" ++ toString t.line ++ ")"

mutual

def Expr.outline : Expr → Outline
  | .ident name line => .record [.text "ident", .text name, .integer line]
  | .number x line => .record [.text "number", .number x, .integer line]
  | .string s line => .record [.text "string", .text s, .integer line]
  | .bool b line => .record [.text "bool", .truth b, .integer line]
  | .array items line => .record [.text "array", .sequence (outlineExprs items), .integer line]
  | .object entries line =>
    .record [.text "object", .sequence (outlineEntries entries), .integer line]
  | .prefixed op e line => .record [.text "prefix", .operator op, e.outline, .integer line]
  | .between op l r line =>
    .record [.text "infix", .operator op, l.outline, r.outline, .integer line]
  | .cond test yes no line =>
    .record [.text "if", test.outline, .sequence (outlineStmts yes), outlineBranch no,
      .integer line]
  | .function params body line =>
    .record [.text "function", .sequence (params.map .text), .sequence (outlineStmts body),
      .integer line]
  | .call callee args line =>
    .record [.text "call", callee.outline, .sequence (outlineExprs args), .integer line]
  | .index c i line => .record [.text "index", c.outline, i.outline, .integer line]
  | .kindOf e line => .record [.text "typeof", e.outline, .integer line]
  | .loop body line => .record [.text "loop", .sequence (outlineStmts body), .integer line]
  | .foreign node => node
termination_by structural e => e

def Stmt.outline : Stmt → Outline
  | .bind name e line => .record [.text "set", .text name, e.outline, .integer line]
  | .rebind name e line => .record [.text "anew", .text name, e.outline, .integer line]
  | .giveBack e line => .record [.text "return", outlineResult e, .integer line]
  | .expr e line => .record [.text "expr_stmt", e.outline, .integer line]
  | .load name line => .record [.text "include", .text name, .integer line]
  | .leave line => .record [.text "break", .integer line]
  | .again line => .record [.text "continue", .integer line]
  | .foreign node => node
termination_by structural s => s

def outlineExprs : List Expr → List Outline
  | [] => []
  | e :: rest => e.outline :: outlineExprs rest
termination_by structural es => es

def outlineEntries : List (Expr × Expr) → List Outline
  | [] => []
  | (k, v) :: rest => .record [k.outline, v.outline] :: outlineEntries rest
termination_by structural es => es

def outlineStmts : List Stmt → List Outline
  | [] => []
  | s :: rest => s.outline :: outlineStmts rest
termination_by structural ss => ss

def outlineBranch : Option (List Stmt) → Outline
  | none => .nothing
  | some body => .sequence (outlineStmts body)
termination_by structural b => b

def outlineResult : Option Expr → Outline
  | none => .nothing
  | some e => e.outline
termination_by structural e => e

end

def dumpText (tokens : List Token) (program : Program) : String :=
  "\nTokens:\n\n[" ++ ", ".intercalate (tokens.map Token.dump) ++ "]\n\nAST:\n\n" ++
    (Outline.sequence (outlineStmts program)).render ++ "\n \n"

end MeowLang
