import MeowLang.Value

/-! Scopes: tables of bindings, each with a link to the scope around it. Scopes are numbered
in the order in which they were made, so that everything that holds a scope's number sees
the same bindings. -/
namespace MeowLang

structure Scope where
  bindings : List (String × Value)
  outer : Option Nat

structure Scopes where
  table : Array Scope

namespace Scopes

def empty : Scopes := ⟨#[]⟩

def size (s : Scopes) : Nat := s.table.size

def bindings (s : Scopes) (scope : Nat) : List (String × Value) :=
  match s.table[scope]? with
  | some found => found.bindings
  | none => []

def outer? (s : Scopes) (scope : Nat) : Option Nat :=
  s.table[scope]?.bind Scope.outer

/-- A scope and the scopes around it, at most `n` of them. -/
def chainFrom (s : Scopes) : Nat → Nat → List Nat
  | 0, _ => []
  | n + 1, scope =>
    match s.outer? scope with
    | some outer => scope :: chainFrom s n outer
    | none => [scope]

/-- A scope and the scopes around it, innermost first. No scope stands around itself, so the
count of all scopes bounds the way. -/
def chain (s : Scopes) (scope : Nat) : List Nat := s.chainFrom (s.size + 1) scope

/-- The value of a name, from the innermost scope that binds it. -/
def get? (s : Scopes) (scope : Nat) (name : String) : Option Value :=
  (s.chain scope).findSome? fun i => (s.bindings i).lookup name

/-- A name is bound, and not to the mark of an unbound name. -/
def contains (s : Scopes) (scope : Nat) (name : String) : Bool :=
  match s.get? scope name with
  | none | some .unbound => false
  | some _ => true

def set (s : Scopes) (scope : Nat) (name : String) (v : Value) : Scopes :=
  ⟨s.table.modify scope fun found =>
    { found with bindings := Assoc.insert name v found.bindings }⟩

def holder? (s : Scopes) (scope : Nat) (name : String) : Option Nat :=
  (s.chain scope).find? fun i => Assoc.contains name (s.bindings i)

/-- Gives a new value to a name in the innermost scope that binds it, if there is one. -/
def reassign? (s : Scopes) (scope : Nat) (name : String) (v : Value) : Option Scopes :=
  match s.holder? scope name with
  | some i => some (s.set i name v)
  | none => none

def update (s : Scopes) (scope : Nat) (new : List (String × Value)) : Scopes :=
  ⟨s.table.modify scope fun found =>
    { found with bindings := Assoc.insertAll new found.bindings }⟩

/-- The scopes from the first one up to and including `stop`. -/
def upTo (stop : Nat) : List Nat → List Nat
  | [] => []
  | i :: rest => if i == stop then [i] else i :: upTo stop rest

/-- The bindings from a scope up to and including `stop`; inner ones win. -/
def exports (s : Scopes) (scope stop : Nat) : List (String × Value) :=
  (upTo stop (s.chain scope)).foldr (fun i found => Assoc.insertAll (s.bindings i) found) []

/-- Makes a scope; its number is the count of the scopes before it. -/
def push (s : Scopes) (scope : Scope) : Scopes := ⟨s.table.push scope⟩

/-- The names that a scope itself binds, in alphabetical order. -/
def names (s : Scopes) (scope : Nat) : List String :=
  ((s.bindings scope).map Prod.fst).mergeSort fun a b => decide (a ≤ b)

def inspect (s : Scopes) (scope : Nat) : String :=
  "Environment(" ++ (Outline.sequence ((s.names scope).map .text)).render ++ ")"

end Scopes

end MeowLang
