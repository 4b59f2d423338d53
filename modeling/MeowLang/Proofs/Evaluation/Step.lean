import MeowLang.Eval
import MeowLang.Proofs.Value.Parts

/-! One step of the evaluations that call functions and load libraries. A call of a function
runs its body in a scope of its own; running the text of a library either stops at once or is
the run of a program in scopes of its own. -/
namespace MeowLang

variable {α β : Type}

def Outcome.map (f : α → β) : Outcome α → Outcome β
  | .value a => .value (f a)
  | .signal s => .signal s
  | .halted h => .halted h
  | .exhausted => .exhausted

/-- The outcome of a load that stops at once: an ordinary fault without a place, or the halt at a
numeral that is no number. -/
inductive Outcome.Refuses : Outcome α → Prop
  | fault (cause : Cause) (ordinary : cause.isOrdinary = true) :
      Refuses (.signal (.failed ⟨cause, none, none⟩))
  | halt (e : MalformedNumber) : Refuses (.halted (.malformedNumber e))

namespace Machine

def beginLibrary (m : Machine) (key : String) (natives : List (String × Value)) : Machine :=
  { (m.addRoots natives).2 with
    current := (m.addRoots natives).1, loading := key :: (m.addRoots natives).2.loading }

def endLibrary (m before : Machine) (key : String) : Machine :=
  { m with current := before.current, loading := m.loading.erase key }

@[simp] theorem beginLibrary_loading (m : Machine) (key : String)
    (natives : List (String × Value)) : (m.beginLibrary key natives).loading = key :: m.loading :=
  rfl

end Machine

/-! ### Calls -/

section
variable (site : Site) (n : Nat) (f : Closure) (args : List Value) (line : Int) (m : Machine)

theorem apply_function_of_eq (h : args.length = f.params.length) :
    apply site (n + 1) (.function f) args line m =
      match Eval.within ⟨Assoc.insertAll (f.params.zip args) [], some f.scope⟩
          (execAll site n f.body .null) m with
      | (.signal (.returned v), m) => (.value v, m)
      | (.signal (.control c), m) => Eval.fail site line (.strayControl c) m
      | r => r := congrFun (if_pos h) m

theorem apply_function_of_ne (h : args.length ≠ f.params.length) :
    apply site (n + 1) (.function f) args line m =
      Eval.fail site line (.callArity f.params.length args.length) m := congrFun (if_neg h) m

end

/-! ### Loads -/

/-- Running a text that is read without complaints, unless it is being loaded already. -/
theorem runLibrary_of_clean {key source : String} {parsed : Parsed} {m : Machine} (site : Site)
    (n : Nat) (name : String) (natives : List (String × Value))
    (read : Parsed.ofSource source = .ok parsed) (clean : parsed.errors = [])
    (unused : key ∉ m.loading) :
    runLibrary site (n + 1) key name source natives m =
      let (r, m') :=
        runProgram { site with file := key } n parsed.program .null (m.beginLibrary key natives)
      (r.map fun _ => m'.scopes.exports m'.current (m.addRoots natives).1,
        m'.endLibrary m key) := by
  have hkey : m.loading.contains key = false := by simpa using unused
  simp only [runLibrary, hkey, read, clean, List.isEmpty_nil, Bool.not_true, Bool.false_eq_true,
    if_false, Machine.beginLibrary]
  split <;> rename_i heq <;> rw [heq] <;> rfl

theorem runLibrary_cases (site : Site) (n : Nat) (key name source : String)
    (natives : List (String × Value)) (m : Machine) :
    (∃ r, Outcome.Refuses r ∧ runLibrary site (n + 1) key name source natives m = (r, m)) ∨
    ∃ parsed r m', Parsed.ofSource source = .ok parsed ∧ parsed.errors = [] ∧
      key ∉ m.loading ∧
      runProgram { site with file := key } n parsed.program .null (m.beginLibrary key natives) =
        (r, m') ∧
      runLibrary site (n + 1) key name source natives m =
        (r.map fun _ => m'.scopes.exports m'.current (m.addRoots natives).1,
          m'.endLibrary m key) := by
  cases hkey : m.loading.contains key with
  | true => exact .inl ⟨_, .fault (.recursiveInclude key) rfl, by simp only [runLibrary, hkey]; rfl⟩
  | false =>
    have unused : key ∉ m.loading := by simpa using hkey
    cases hparsed : Parsed.ofSource source with
    | error e => exact .inl ⟨_, .halt e, by simp only [runLibrary, hkey, hparsed]; rfl⟩
    | ok parsed =>
      cases herrors : parsed.errors with
      | nil =>
        exact .inr ⟨parsed, _, _, rfl, herrors, unused, rfl,
          runLibrary_of_clean site n name natives hparsed herrors unused⟩
      | cons e errors =>
        exact .inl ⟨_, .fault (.badLibrary name parsed.errors) rfl,
          by simp only [runLibrary, hkey, hparsed, herrors]; rfl⟩

theorem load_succ (site : Site) (n : Nat) (name : String) (m : Machine) :
    load site (n + 1) name m =
      match m.plan site name with
      | .fault cause => Eval.failUnlocated cause m
      | .halt h => (.halted h, m)
      | .hand exports => (.value (m.instantiate exports).1, (m.instantiate exports).2)
      | .run key source exports =>
        runLibrary site n key name source (m.instantiate exports).1 (m.instantiate exports).2 := rfl

end MeowLang
