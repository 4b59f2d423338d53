/-! Strict UTF-8: shortest forms only, no surrogates, nothing beyond the last code point.
A text that breaks off or goes astray is refused at the first octet of its character. -/
namespace MeowLang.Text.Utf8

inductive Reason where
  | start | continuation | cutOff
  deriving DecidableEq, Repr

def Reason.message : Reason → String
  | start => "invalid start byte"
  | continuation => "invalid continuation byte"
  | cutOff => "unexpected end of data"

/-- Octets that are no character: the first of them, where it stands, and how many they are. -/
structure Fault where
  octet : UInt8
  position : Nat
  count : Nat
  reason : Reason
  deriving DecidableEq, Repr

def Fault.message (f : Fault) : String :=
  let spot :=
    if f.count = 1 then
      let ds := Nat.toDigits 16 f.octet.toNat
      "byte 0x" ++ String.ofList (List.replicate (2 - ds.length) '0' ++ ds) ++
        " in position " ++ toString f.position
    else
      "bytes in position " ++ toString f.position ++ "-" ++ toString (f.position + f.count - 1)
  "'utf-8' codec can't decode " ++ spot ++ ": " ++ f.reason.message

/-- What a first octet announces: the bits it holds, how many octets follow, and the
range of the next one. -/
structure Lead where
  bits : Nat
  more : Nat
  low : Nat
  high : Nat

def lead? (b : Nat) : Option Lead :=
  if b < 0x80 then some ⟨b, 0, 0, 0⟩
  else if b < 0xc2 then none
  else if b < 0xe0 then some ⟨b % 0x20, 1, 0x80, 0xbf⟩
  else if b = 0xe0 then some ⟨0, 2, 0xa0, 0xbf⟩
  else if b = 0xed then some ⟨0xd, 2, 0x80, 0x9f⟩
  else if b < 0xf0 then some ⟨b % 0x10, 2, 0x80, 0xbf⟩
  else if b = 0xf0 then some ⟨0, 3, 0x90, 0xbf⟩
  else if b < 0xf4 then some ⟨b % 8, 3, 0x80, 0xbf⟩
  else if b = 0xf4 then some ⟨4, 3, 0x80, 0x8f⟩
  else none

/-- Where a reading stands: between characters, or inside one, with the bits so far, the
octets read and still to come, and the range of the next one. -/
inductive State where
  | between
  | inside (first : UInt8) (bits read more low high : Nat)

/-- Reads octets to the end. `position` is that of the next octet. -/
def decodeFrom : State → Nat → List UInt8 → Except Fault (List Char)
  | .between, _, [] => .ok []
  | .inside first _ read _ _ _, position, [] =>
    .error ⟨first, position - read, read, .cutOff⟩
  | .between, position, b :: rest =>
    match lead? b.toNat with
    | none => .error ⟨b, position, 1, .start⟩
    | some l =>
      if l.more = 0 then (decodeFrom .between (position + 1) rest).map (Char.ofNat l.bits :: ·)
      else decodeFrom (.inside b l.bits 1 l.more l.low l.high) (position + 1) rest
  | .inside first bits read more low high, position, b :: rest =>
    if low ≤ b.toNat && b.toNat ≤ high then
      let bits := bits * 0x40 + b.toNat % 0x40
      if more = 1 then (decodeFrom .between (position + 1) rest).map (Char.ofNat bits :: ·)
      else decodeFrom (.inside first bits (read + 1) (more - 1) 0x80 0xbf) (position + 1) rest
    else .error ⟨first, position - read, read, .continuation⟩

def decode (octets : List UInt8) : Except Fault String :=
  (decodeFrom .between 0 octets).map String.ofList

/-! ### Reading what is no text -/

/-- The character that stands for octets that are none. -/
def replacement : Char := '\ufffd'

/-- What the first octet of a character gives at once, and where the reading stands after it. -/
def begin (b : UInt8) : List Char × State :=
  match lead? b.toNat with
  | none => ([replacement], .between)
  | some l =>
    if l.more = 0 then ([Char.ofNat l.bits], .between)
    else ([], .inside b l.bits 1 l.more l.low l.high)

/-- Reads octets to the end, with the replacement character for every stretch that is no
character. -/
def decodeLossyFrom : State → List UInt8 → List Char
  | .between, [] => []
  | .inside _ _ _ _ _ _, [] => [replacement]
  | .between, b :: rest =>
    let (out, state) := begin b
    out ++ decodeLossyFrom state rest
  | .inside first bits read more low high, b :: rest =>
    if low ≤ b.toNat && b.toNat ≤ high then
      let bits := bits * 0x40 + b.toNat % 0x40
      if more = 1 then Char.ofNat bits :: decodeLossyFrom .between rest
      else decodeLossyFrom (.inside first bits (read + 1) (more - 1) 0x80 0xbf) rest
    else
      let (out, state) := begin b
      replacement :: (out ++ decodeLossyFrom state rest)

/-- The text of octets, whatever they are. -/
def decodeLossy (octets : List UInt8) : List Char := decodeLossyFrom .between octets

def encode (s : String) : List UInt8 := s.toUTF8.toList

end MeowLang.Text.Utf8
