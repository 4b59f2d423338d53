/-! Finding, cutting and replacing occurrences of one text in another, from left to right
and without overlap. -/
namespace MeowLang.Text

/-- `part` occurs in the text. -/
def occursIn (part : List Char) : List Char → Bool
  | [] => part.isEmpty
  | c :: cs => part.isPrefixOf (c :: cs) || occursIn part cs

/-- The pieces between the occurrences of `sep`, which must not be empty. `piece` is what
has been read of the current piece, last character first, and `skip` counts the
characters of an occurrence that are still to be passed over. -/
def cut (sep : List Char) : Nat → List Char → List Char → List (List Char)
  | _, piece, [] => [piece.reverse]
  | skip + 1, piece, _ :: cs => cut sep skip piece cs
  | 0, piece, c :: cs =>
    if sep.isPrefixOf (c :: cs) then piece.reverse :: cut sep (sep.length - 1) [] cs
    else cut sep 0 (c :: piece) cs

/-- The pieces of a text between the occurrences of a separator; without a separator, its
characters. -/
def split (s sep : String) : List String :=
  if sep.isEmpty then s.toList.map (String.ofList [·])
  else (cut sep.toList 0 [] s.toList).map String.ofList

/-- The text with `new` for every occurrence of `old`, which must not be empty; `skip`
counts the characters of an occurrence that are still to be passed over. -/
def substitute (old new : List Char) : Nat → List Char → List Char
  | _, [] => []
  | skip + 1, _ :: cs => substitute old new skip cs
  | 0, c :: cs =>
    if old.isPrefixOf (c :: cs) then new ++ substitute old new (old.length - 1) cs
    else c :: substitute old new 0 cs

/-- The text with `new` for every occurrence of `old`; the empty text occurs before every
character and at the end. -/
def replace (s old new : String) : String :=
  if old.isEmpty then String.ofList (s.toList.flatMap (fun c => new.toList ++ [c]) ++ new.toList)
  else String.ofList (substitute old.toList new.toList 0 s.toList)

/-- The text up to the first line feed, and the rest from it on. -/
def splitFirstLine (s : String) : String × String :=
  (String.ofList (s.toList.takeWhile (· != '\n')), String.ofList (s.toList.dropWhile (· != '\n')))

end MeowLang.Text
