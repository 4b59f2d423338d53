/-! Lines of a text. A text file's line ends are all read as one character; an editor's
line ends are any of a longer list, in which a return and a line feed together are one. -/
namespace MeowLang.Text

def isLineEnd (c : Char) : Bool :=
  c == '\n' || c == '\r' || c == '\x0b' || c == '\x0c' || c == '\x1c' || c == '\x1d' ||
    c == '\x1e' || c == '\u0085' || c == '\u2028' || c == '\u2029'

/-- The lines with their ends; `line` is what has been read of the current one, last
character first. -/
def keepLines : List Char → List Char → List (List Char)
  | [], [] => []
  | [], line => [line.reverse]
  | '\r' :: '\n' :: rest, line => (line.reverse ++ ['\r', '\n']) :: keepLines rest []
  | c :: rest, line =>
    if isLineEnd c then (line.reverse ++ [c]) :: keepLines rest []
    else keepLines rest (c :: line)

def linesWithEnds (s : String) : List String :=
  (keepLines s.toList []).map String.ofList

def dropLineEnd (line : List Char) : List Char :=
  (line.reverse.dropWhile isLineEnd).reverse

def lines (s : String) : List String :=
  (keepLines s.toList []).map fun line => String.ofList (dropLineEnd line)

/-- Every return, and every return with a line feed behind it, read as a line feed. -/
def unifyNewlines : List Char → List Char
  | [] => []
  | '\r' :: '\n' :: rest => '\n' :: unifyNewlines rest
  | '\r' :: rest => '\n' :: unifyNewlines rest
  | c :: rest => c :: unifyNewlines rest

end MeowLang.Text
