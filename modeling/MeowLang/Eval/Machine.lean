import MeowLang.Library
import MeowLang.Native.Call
import MeowLang.Scope

/-! The state of an evaluation, and evaluations as functions on it. Every outcome, also a
signal or a halt, comes with the state it leaves behind. -/
namespace MeowLang

structure Machine where
  scopes : Scopes
  /-- The scope that names are looked up from. -/
  current : Nat
  /-- The least identity that no function has yet. -/
  fresh : Nat
  /-- The libraries that are being loaded, the innermost one first. -/
  loading : List String
  world : World

/-- The program text that is being run: where its errors are reported and where its
libraries are looked for. -/
structure Site where
  file : String
  baseDirectory : String

namespace Machine

def addScope (m : Machine) (scope : Scope) : Nat × Machine :=
  (m.scopes.size, { m with scopes := m.scopes.push scope })

def instantiate (m : Machine) (exports : List (String × Export)) :
    List (String × Value) × Machine :=
  (Library.instantiate m.fresh exports, { m with fresh := m.fresh + exports.length })

/-- Makes the two outermost scopes of a program: the prelude, and around nothing else the
program's own names. Gives the number of the second. -/
def addRoots (m : Machine) (own : List (String × Value)) : Nat × Machine :=
  let (prelude, m) := m.instantiate Library.prelude
  let (builtins, m) := m.addScope ⟨prelude, none⟩
  m.addScope ⟨Assoc.insertAll own [], some builtins⟩

def start (world : World) : Machine :=
  let (globals, m) := addRoots ⟨.empty, 0, 0, [], world⟩ []
  { m with current := globals }

end Machine

/-- What is left to do for a load once its library has been looked for. -/
inductive LoadPlan where
  | fault (cause : Cause)
  | halt (h : Halt)
  /-- The library has no text. -/
  | hand (exports : List (String × Export))
  /-- The text runs on top of the exports. -/
  | run (key source : String) (exports : List (String × Export))

/-- Looks for a library, among the built-in ones or among the files. -/
def Machine.plan (m : Machine) (site : Site) (name : String) : LoadPlan :=
  if Library.isBuiltIn name then
    match Library.find? name with
    | none => .fault (.unknownLibrary name)
    | some library =>
      match library.source with
      | none => .hand library.exports
      | some source => .run library.fullName source library.exports
  else
    let path := Path.ofLibrary m.world.workingDirectory site.baseDirectory name
    if m.loading.contains path then .fault (.recursiveInclude path)
    else if !m.world.files.isFile path then .halt (.libraryNotFound name path)
    else
      match m.world.readText path with
      | .error h => .halt h
      | .ok source => .run path source []

def Eval (α : Type) : Type := Machine → Outcome α × Machine

namespace Eval

@[always_inline]
instance : Monad Eval where
  pure a := fun m => (.value a, m)
  bind p f := fun m =>
    match p m with
    | (.value a, m) => f a m
    | (.signal s, m) => (.signal s, m)
    | (.halted h, m) => (.halted h, m)
    | (.exhausted, m) => (.exhausted, m)

def exhausted {α : Type} : Eval α := fun m => (.exhausted, m)

def halt {α : Type} (h : Halt) : Eval α := fun m => (.halted h, m)

def signal {α : Type} (s : Signal) : Eval α := fun m => (.signal s, m)

/-- Fails at a line of the text that is being run. -/
def fail {α : Type} (site : Site) (line : Int) (cause : Cause) : Eval α :=
  signal (.failed ⟨cause, some line, some site.file⟩)

/-- Fails at a place that is still to be found. -/
def failUnlocated {α : Type} (cause : Cause) : Eval α :=
  signal (.failed ⟨cause, none, none⟩)

def ofExcept {α : Type} (site : Site) (line : Int) : Except Cause α → Eval α
  | .ok a => pure a
  | .error cause => fail site line cause

def lookup (name : String) : Eval (Option Value) := fun m =>
  (.value (m.scopes.get? m.current name), m)

def bindName (name : String) (v : Value) : Eval Unit := fun m =>
  (.value (), { m with scopes := m.scopes.set m.current name v })

/-- Gives a name a new value where it is bound; false if it is not. -/
def rebindName (name : String) (v : Value) : Eval Bool := fun m =>
  match m.scopes.holder? m.current name with
  | some i => (.value true, { m with scopes := m.scopes.set i name v })
  | none => (.value false, m)

/-- Makes a function that holds on to the current scope. -/
def makeClosure (params : List String) (body : List Stmt) : Eval Value := fun m =>
  (.value (.function ⟨m.fresh, params, body, m.current⟩), { m with fresh := m.fresh + 1 })

/-- Runs in a new scope, and goes back to the present one whatever the outcome. -/
def within {α : Type} (scope : Scope) (p : Eval α) : Eval α := fun m =>
  let present := m.current
  let (inner, m) := m.addScope scope
  match p { m with current := inner } with
  | (r, m) => (r, { m with current := present })

def nested {α : Type} (p : Eval α) : Eval α := fun m =>
  within ⟨[], some m.current⟩ p m

/-- Calls a native function; a failure is placed at the line of the call. -/
def callNative (site : Site) (line : Int) (f : Native) (args : List Value) : Eval Value :=
  fun m =>
    match f.call args m.world with
    | (.signal (.failed fault), world) =>
      (.signal (.failed (fault.locate (some line) (some site.file))), { m with world := world })
    | (r, world) => (r, { m with world := world })

/-- Lays a scope of new names over the current one and stays in it. -/
def layer (exports : List (String × Value)) : Eval Unit := fun m =>
  let (scope, m) := m.addScope ⟨Assoc.insertAll exports [], some m.current⟩
  (.value (), { m with current := scope })

end Eval

end MeowLang
