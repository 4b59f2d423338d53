import MeowLang.Proofs.Evaluation.Settle

/-! Calls are scoped lexically. A function runs in a scope inside the one it was made in, and a
native function sees the world only, so a call takes the same course wherever it is made and comes
back there. -/
namespace MeowLang

variable {α β : Type} {m m' : Machine}

def Machine.moved (m : Machine) (c : Nat) : Machine := { m with current := c }

/-- The states differ at most in the scope they are in. -/
def Machine.SameElsewhere (m m' : Machine) : Prop := m' = m.moved m'.current

namespace Eval

/-- An evaluation that takes the same course from every scope, and comes back to it. -/
def Detached (p : Eval α) : Prop := ∀ m c, p (m.moved c) = ((p m).1, (p m).2.moved c)

theorem Detached.current_eq {p : Eval α} (h : p.Detached) (m : Machine) :
    (p m).2.current = m.current :=
  congrArg (fun z => z.2.current) (h m m.current)

/-- What is done with the result may not ask for the scope either. -/
theorem Detached.finish {p : Eval α} (h : p.Detached) {f : Outcome α × Machine → Outcome β × Machine}
    (hf : ∀ r m c, f (r, m.moved c) = ((f (r, m)).1, (f (r, m)).2.moved c)) :
    Detached fun m => f (p m) := by
  intro m c
  simp only [h m c]
  exact hf (p m).1 (p m).2 c

theorem detached_exhausted : Detached (exhausted : Eval α) := fun _ _ => rfl

theorem detached_fail (site : Site) (line : Int) (cause : Cause) :
    Detached (fail site line cause : Eval α) := fun _ _ => rfl

theorem detached_callNative (site : Site) (line : Int) (f : Native) (args : List Value) :
    (callNative site line f args).Detached := by
  intro m c
  have hworld : (m.moved c).world = m.world := rfl
  simp only [callNative, hworld]
  split <;> rfl

/-- A new scope is entered from anywhere, and where it was entered from is remembered outside of
what runs in it. -/
theorem detached_within (scope : Scope) (p : Eval α) : (within scope p).Detached := fun _ _ => rfl

end Eval

open Eval

theorem apply_detached (site : Site) (n : Nat) (callee : Value) (args : List Value) (line : Int) :
    (apply site n callee args line).Detached := by
  cases n with
  | zero => exact detached_exhausted
  | succ n =>
    cases callee with
    | native f identity => exact detached_callNative site line f args
    | function f =>
      intro m c
      by_cases hlen : args.length = f.params.length
      · have hbody := (detached_within ⟨Assoc.insertAll (f.params.zip args) [], some f.scope⟩
          (execAll site n f.body .null)).finish (f := closeCall site line) fun r m c => by
            obtain _ | (v | fault | control) | _ | _ := r <;> rfl
        simp only [apply_function_of_eq _ _ _ _ _ _ hlen]
        exact hbody m c
      · simp only [apply_function_of_ne _ _ _ _ _ _ hlen]
        exact detached_fail _ _ _ m c
    | _ => exact detached_fail _ _ _

/-- In two states that differ only in the scope they are in, a call comes to the same outcome with
every bound. The states it ends in differ only in the scope they are in as well, which for each is
the one that the call was made in. -/
theorem calls_do_not_see_the_caller (site : Site) (n : Nat) (callee : Value) (args : List Value)
    (line : Int) (h : m.SameElsewhere m') :
    (apply site n callee args line m').1 = (apply site n callee args line m).1 ∧
      (apply site n callee args line m).2.SameElsewhere (apply site n callee args line m').2 ∧
      (apply site n callee args line m).2.current = m.current ∧
      (apply site n callee args line m').2.current = m'.current := by
  have hdetached := apply_detached site n callee args line
  have hrun : apply site n callee args line m' =
      ((apply site n callee args line m).1,
        (apply site n callee args line m).2.moved m'.current) := by
    rw [← hdetached m m'.current, ← h]
  have hcurrent := hdetached.current_eq m'
  refine ⟨by rw [hrun], ?_, hdetached.current_eq m, hcurrent⟩
  rw [Machine.SameElsewhere, hcurrent, hrun]

/-- A function that sets `x` anew, called where `x` means what it means to the function and where
another `x` stands before it. -/
theorem calls_do_not_see_the_caller_before_another_name :
    let site : Site := ⟨"main", "/"⟩
    let scopes : Scopes := ⟨#[⟨[("x", .bool false)], none⟩, ⟨[("x", .null)], some 0⟩]⟩
    let m : Machine := ⟨scopes, 0, 1, [], .start ⟨[], []⟩ []⟩
    let m' : Machine := m.moved 1
    let f : Value := .function ⟨0, ["p"],
      [.rebind "x" (.ident "p" 1) 1, .giveBack (some (.ident "x" 2)) 2], 0⟩
    m.SameElsewhere m' ∧ (apply site 5 f [.bool true] 3 m).1 = .value (.bool true) ∧
      (apply site 5 f [.bool true] 3 m').1 = (apply site 5 f [.bool true] 3 m).1 ∧
      (apply site 5 f [.bool true] 3 m').2.current = 1 := by
  intro site scopes m m' f
  have hsame : m.SameElsewhere m' := rfl
  obtain ⟨houtcome, -, -, hcurrent⟩ :=
    calls_do_not_see_the_caller site 5 f [.bool true] 3 hsame
  exact ⟨hsame, rfl, houtcome, hcurrent⟩

end MeowLang
