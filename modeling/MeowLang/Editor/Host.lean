import MeowLang.Text.Quoted
import MeowLang.Text.Search

/-! The part of an address between its slashes that names a host. A numeric host stands in
square brackets if it has groups of hexadecimal digits, and without them if it has four
octets. -/
namespace MeowLang.Uri

inductive Fault where
  | brackets
  | future
  | octetsInBrackets
  | unknownHost (host : String)
  | lookalike (authority : String)
  deriving DecidableEq, Repr

def Fault.message : Fault → String
  | brackets => "Invalid IPv6 URL"
  | future => "IPvFuture address is invalid"
  | octetsInBrackets => "An IPv4 address cannot be in brackets"
  | unknownHost host => Text.quoted host ++ " does not appear to be an IPv4 or IPv6 address"
  | lookalike authority =>
    "netloc '" ++ authority ++ "' contains invalid characters under NFKC normalization"

namespace Host

/-! ### Numeric hosts -/

def isHexDigit (c : Char) : Bool := c.isDigit || ('a' ≤ c && c ≤ 'f') || ('A' ≤ c && c ≤ 'F')

/-- A number up to 255 in decimal digits, without zeros in front. -/
def isOctet (s : String) : Bool :=
  let digits := s.toList
  let value := digits.foldl (fun n c => n * 10 + (c.toNat - '0'.toNat)) 0
  !digits.isEmpty && digits.length ≤ 3 && digits.all Char.isDigit && value ≤ 255 &&
    (digits.head? != some '0' || digits.length = 1)

/-- Four octets with points between them. -/
def isOctets (s : String) : Bool :=
  let parts := Text.split s "."
  parts.length = 4 && parts.all isOctet

/-- Sixteen bits in hexadecimal digits. -/
def isGroup (s : String) : Bool :=
  let digits := s.toList
  !digits.isEmpty && digits.length ≤ 4 && digits.all isHexDigit

/-- How many groups there are. The last one of an address can be written as four octets,
which make up two groups. -/
def groupCount (endsAddress : Bool) : List String → Option Nat
  | [] => some 0
  | [s] =>
    if isGroup s then some 1 else if endsAddress && isOctets s then some 2 else none
  | s :: rest => if isGroup s then (groupCount endsAddress rest).map (· + 1) else none

/-- How many groups a side of an address has; it may be empty. -/
def sideCount (endsAddress : Bool) (s : String) : Option Nat :=
  if s.isEmpty then some 0 else groupCount endsAddress (Text.split s ":")

/-- Eight groups with colons between them. Two colons, once, stand for any number of groups
that are zero, but not for none. -/
def isGroups (s : String) : Bool :=
  match Text.split s "::" with
  | [whole] => groupCount true (Text.split whole ":") == some 8
  | [high, low] =>
    match sideCount false high, sideCount true low with
    | some m, some n => m + n ≤ 7
    | _, _ => false
  | _ => false

/-- An address of groups, which can name a zone behind a percent sign. -/
def isGroupsInZone (s : String) : Bool :=
  match Text.split s "%" with
  | [address] => isGroups address
  | [address, zone] => !zone.isEmpty && isGroups address
  | _ => false

/-- A version in hexadecimal digits, a point and some text. -/
def isVersioned (text : List Char) : Bool :=
  !(text.takeWhile isHexDigit).isEmpty &&
    match text.dropWhile isHexDigit with
    | '.' :: _ :: _ => true
    | _ => false

/-- A host may stand in brackets. -/
def checkBracketed (host : String) : Except Fault Unit :=
  match host.toList with
  | 'v' :: rest => if isVersioned rest then .ok () else .error .future
  | _ =>
    if isOctets host then .error .octetsInBrackets
    else if isGroupsInZone host then .ok ()
    else .error (.unknownHost host)

/-! ### Brackets -/

def withoutUser (authority : List Char) : List Char :=
  (authority.reverse.takeWhile (· != '@')).reverse

/-- Brackets come in pairs around a numeric host, and only a colon can follow them. Where an
authority has brackets before its host only, the host must be numeric too. -/
def checkBrackets (authority : List Char) : Except Fault Unit :=
  match authority.contains '[', authority.contains ']' with
  | false, false => .ok ()
  | true, true =>
    match withoutUser authority with
    | '[' :: rest =>
      match rest.dropWhile (· != ']') with
      | [] | [']'] | ']' :: ':' :: _ =>
        checkBracketed (String.ofList (rest.takeWhile (· != ']')))
      | _ => .error .brackets
    | host =>
      if host.contains '[' then .error .brackets
      else checkBracketed (String.ofList (host.takeWhile (· != ':')))
  | _, _ => .error .brackets

/-! ### Lookalikes -/

/-- The characters that are written otherwise but stand for a mark of addresses, alone or
among others. -/
def lookalikes : List Nat :=
  [0x2047, 0x2048, 0x2049, 0x2100, 0x2101, 0x2105, 0x2106, 0x2a74, 0xfe13, 0xfe16, 0xfe55,
    0xfe56, 0xfe5f, 0xfe6b, 0xff03, 0xff0f, 0xff1a, 0xff1f, 0xff20]

/-- No character of an authority looks like a mark that would end it. -/
def checkLookalikes (authority : List Char) : Except Fault Unit :=
  if authority.any fun c => lookalikes.contains c.toNat then
    .error (.lookalike (String.ofList authority))
  else .ok ()

end Host

end MeowLang.Uri
