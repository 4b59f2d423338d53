import MeowLang.Failure
import MeowLang.Value.Inspect

/-! Maps that an embedding program holds and changes. A map can hold another one itself,
so that later changes to the inner map are seen through the outer one. -/
namespace MeowLang

/-- What a shared map holds under a key: a value, or the shared map of a number. -/
inductive Held where
  | value (v : Value)
  | link (map : Nat)

structure SharedMaps where
  table : Array (List (Key × Held))

namespace SharedMaps

def empty : SharedMaps := ⟨#[]⟩

/-- The entries of a map as they are now; maps are followed at most `n` deep. -/
def viewFrom (s : SharedMaps) : Nat → Nat → List (Key × Value)
  | 0, _ => []
  | n + 1, map =>
    (s.table[map]?.getD []).map fun (k, held) =>
      match held with
      | .value v => (k, v)
      | .link inner => (k, .map (viewFrom s n inner))

def view (s : SharedMaps) (map : Nat) : List (Key × Value) := s.viewFrom s.table.size map

/-- The value of a key in a map, if there is one. Collections and failures cannot even be
asked for. -/
def find (s : SharedMaps) (map : Nat) (key : Value) : Except Value.Misuse (Option Value) :=
  match key with
  | .array _ | .map _ | .failure _ _ _ => .error (.unaskable key)
  | key => .ok (key.key?.bind ((s.view map).lookup ·))

def contains (s : SharedMaps) (map : Nat) (key : Value) : Bool :=
  (key.key?.bind ((s.view map).lookup ·)).isSome

/-- Entries with keys that may be unusable. -/
def entriesOf : List (Value × Value) → List (Key × Held) → Except Cause (List (Key × Held))
  | [], done => .ok done
  | (k, v) :: rest, done =>
    match k.key? with
    | some key => entriesOf rest (Assoc.insert key (.value v) done)
    | none => .error (.unusableKey k)

/-- Makes a map and gives its number. -/
def make (s : SharedMaps) (pairs : List (Value × Value)) : Except Cause (Nat × SharedMaps) :=
  (entriesOf pairs []).map fun entries => (s.table.size, ⟨s.table.push entries⟩)

def put (s : SharedMaps) (map : Nat) (key : Value) (held : Held) : Except Cause SharedMaps :=
  match key.key? with
  | some k => .ok ⟨s.table.modify map (Assoc.insert k held)⟩
  | none => .error (.unusableKey key)

end SharedMaps

end MeowLang
