import MeowLang.Editor.Host
import MeowLang.File.Path
import MeowLang.Text.Utf8

/-! Addresses of documents, as an editor sends them, and the paths they mean. -/
namespace MeowLang.Uri

/-! ### Percent codes -/

def hexDigit? (c : Char) : Option Nat :=
  if c.isDigit then some (c.toNat - '0'.toNat)
  else if 'a' ≤ c && c ≤ 'f' then some (c.toNat - 'a'.toNat + 10)
  else if 'A' ≤ c && c ≤ 'F' then some (c.toNat - 'A'.toNat + 10)
  else none

/-- The octets that percent codes and plain characters spell; a percent sign without two
digits behind it stands for itself. -/
def octets : List Char → List UInt8
  | '%' :: a :: b :: rest =>
    match hexDigit? a, hexDigit? b with
    | some high, some low => UInt8.ofNat (high * 16 + low) :: octets rest
    | _, _ => UInt8.ofNat '%'.toNat :: octets (a :: b :: rest)
  | c :: rest => UInt8.ofNat c.toNat :: octets rest
  | [] => []

/-- The characters that percent codes spell. Other characters than those of the first 128
divide the text: a character is never put together across them. `run` is what has been
read since the last of them, the last character first. -/
def unescape : List Char → List Char → List Char
  | run, [] => Text.Utf8.decodeLossy (octets run.reverse)
  | run, c :: rest =>
    if c.toNat < 0x80 then unescape (c :: run) rest
    else Text.Utf8.decodeLossy (octets run.reverse) ++ c :: unescape [] rest

def isPlain (c : Char) : Bool :=
  c.isAlphanum || c == '_' || c == '.' || c == '-' || c == '~' || c == '/'

def escapeOctet (b : UInt8) : List Char :=
  let c := Char.ofNat b.toNat
  if isPlain c then [c] else '%' :: (Text.hex 2 b.toNat).map Char.toUpper

/-- The address of the file at an absolute path. -/
def ofPath (path : String) : String :=
  "file://" ++ String.ofList ((Text.Utf8.encode path).flatMap escapeOctet)

/-! ### Parts -/

structure Parts where
  scheme : String
  authority : String
  path : String
  deriving DecidableEq, Repr

def isSchemeChar (c : Char) : Bool := c.isAlphanum || c == '+' || c == '-' || c == '.'

/-- The scheme in small letters and what follows its colon, if there is a scheme. -/
def scheme (uri : List Char) : List Char × List Char :=
  match uri with
  | [] => ([], [])
  | c :: _ =>
    match uri.dropWhile isSchemeChar with
    | ':' :: rest =>
      if c.isAlpha then ((uri.takeWhile isSchemeChar).map Char.toLower, rest) else ([], uri)
    | _ => ([], uri)

/-- The authority between two slashes and the next mark, and what follows it. -/
def authority : List Char → List Char × List Char
  | '/' :: '/' :: rest =>
    let isInside (c : Char) : Bool := c != '/' && c != '?' && c != '#'
    (rest.takeWhile isInside, rest.dropWhile isInside)
  | rest => ([], rest)

/-- Schemes whose last path component may carry parameters behind a semicolon. -/
def schemesWithParameters : List String :=
  ["", "ftp", "hdl", "prospero", "http", "imap", "https", "shttp", "rtsp", "rtspu", "sip",
    "sips", "mms", "sftp", "tel"]

/-- A path without the parameters of its last component. -/
def dropParameters (path : List Char) : List Char :=
  let last := (path.reverse.takeWhile (· != '/')).reverse
  path.take (path.length - last.length) ++ last.takeWhile (· != ';')

/-- The parts of an address, with their percent codes. Blanks and control characters in
front are dropped, and so are tabulators and line ends anywhere. -/
def split (uri : String) : Except Fault Parts := do
  let text := (uri.toList.dropWhile (·.toNat ≤ 0x20)).filter fun c =>
    c != '\t' && c != '\n' && c != '\r'
  let (scheme, rest) := scheme text
  let (authority, rest) := authority rest
  Host.checkBrackets authority
  Host.checkLookalikes authority
  let path := (rest.takeWhile (· != '#')).takeWhile (· != '?')
  let scheme := String.ofList scheme
  let path := if schemesWithParameters.contains scheme then dropParameters path else path
  return ⟨scheme, String.ofList authority, String.ofList path⟩

def unquote (s : String) : String := String.ofList (unescape [] s.toList)

def path (uri : String) : Except Fault String :=
  (split uri).map fun parts => Path.tidy (unquote parts.path)

/-- The path that the parts of an address are read from: a host is a share of the network,
and a drive is named by a small letter without a slash. -/
def Parts.location (parts : Parts) : String :=
  let path := unquote parts.path
  if parts.authority != "" && path != "" && parts.scheme == "file" then
    "//" ++ unquote parts.authority ++ path
  else
    match path.toList with
    | '/' :: c :: ':' :: rest =>
      if c.isAlpha then String.ofList (c.toLower :: ':' :: rest) else path
    | _ => path

def location (uri : String) : Except Fault String := (split uri).map Parts.location

end MeowLang.Uri
