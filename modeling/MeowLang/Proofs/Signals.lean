import MeowLang.Proofs.Evaluation.Guarded

/-! Signals and values stay apart. No mark of a signal is ever stored, nor does a call or a
program end with a return or with a loop that is left. -/
namespace MeowLang

variable {m : Machine}

/-- The marks of signals, of unbound names and of numbers from outside. -/
def Value.isMark : Value → Bool
  | failure _ _ _ | returned _ _ | control _ | unbound | count _ => true
  | _ => false

/-- A value of the language at every depth; the keys of maps are so by their type. -/
def Value.Plain (v : Value) : Prop := ∀ u : Value, u.Within v → u.isMark = false

def Machine.Plain (m : Machine) : Prop := ∀ i, ∀ p ∈ m.scopes.bindings i, p.2.Plain

/-- A plain value, a failure, or no answer at all; neither a return nor a loop that is left. -/
def Outcome.Ordinary : Outcome Value → Prop
  | .value v => v.Plain
  | .signal (.failed _) => True
  | .signal (.returned _) | .signal (.control _) => False
  | .halted _ | .exhausted => True

namespace Guard

/-- Nothing that is stored is a mark. -/
def plain : Guard.Open where
  state _ := True
  place _ _ := True
  own _ := True
  region _ := True
  node _ v := v.isMark = false
  expr _ _ _ := True
  stmt _ _ _ := True
  node_of_isData {s v} h := by cases v <;> first | rfl | cases h
  node_of_grows _ h := h
  place_of_grows _ h := h
  expr_of_grows _ h := h
  stmt_of_grows _ h := h
  region_of_mem_chain _ _ := trivial
  expr_part _ _ := trivial
  expr_block _ _ _ := trivial
  stmt_part _ _ := trivial
  stmt_inner _ _ _ := trivial
  closure _ _ _ := rfl
  place_of_closure _ := trivial
  stmt_of_closure _ _ := trivial
  state_push _ _ _ := trivial
  place_push _ _ := trivial
  own_size _ := trivial
  stmt_of_library _ _ _ _ := trivial
  state_bind _ _ _ := trivial
  state_rebind _ _ _ := trivial

theorem plain_inv_iff : plain.Inv m ↔ m.Plain :=
  ⟨fun h i => h.held i trivial, fun h => ⟨trivial, trivial, fun i _ => h i⟩⟩

end Guard

open Guard

theorem plain_start (world : World) : (Machine.start world).Plain := by
  have empty : plain.Inv ⟨.empty, 0, 0, [], world⟩ := ⟨trivial, trivial, fun i _ p hp => nomatch hp⟩
  have roots : plain.Inv (Machine.beginLibrary ⟨.empty, 0, 0, [], world⟩ "" []) :=
    empty.beginLibrary fun _ hp => nomatch hp
  exact plain_inv_iff.mp ⟨trivial, trivial, roots.held⟩

theorem Machine.Plain.program (h : m.Plain) (site : Site) (program : Program) :
    plain.Pre ⟨site, .program program .null, m⟩ :=
  ⟨plain_inv_iff.mpr h, trivial, fun _ _ => trivial, held_of_data Value.madeOf_null⟩

theorem Machine.Rests.plain (h : m.Rests) : m.Plain := by
  induction h with
  | start world => exact plain_start world
  | run _ site n program ih => exact plain_inv_iff.mp ((ih.program site program).final n)
  | wait _ world ih => exact ih

theorem Machine.Reached.plain (h : m.Reached) : m.Plain :=
  plain_inv_iff.mp (h.inv fun _ hrest => hrest.plain.program)

/-! ### Calls and programs end in no other signal than a failure -/

theorem failed_of_signal {p : Outcome Value × Machine} {t : Signal} (h : p.1 = .signal t)
    (hr : ∀ v m, p ≠ (.signal (.returned v), m)) (hc : ∀ c m, p ≠ (.signal (.control c), m)) :
    ∃ fault, t = .failed fault := by
  cases t with
  | returned v => exact (hr v p.2 (Prod.ext h rfl)).elim
  | failed fault => exact ⟨fault, rfl⟩
  | control c => exact (hc c p.2 (Prod.ext h rfl)).elim

theorem apply_signal {site : Site} {n : Nat} {f : Value} {args : List Value} {line : Int}
    {t : Signal} (h : (apply site n f args line m).1 = .signal t) : ∃ fault, t = .failed fault := by
  cases n with
  | zero => cases h
  | succ n =>
    cases f with
    | native f identity =>
      have hans := Native.answers_call f args m.world
      simp only [apply, Eval.callNative] at h
      split at h
      · cases h
        exact ⟨_, rfl⟩
      · rename_i r w _ heq
        rw [heq] at hans
        cases hans with
        | fault cause =>
          cases h
          exact ⟨_, rfl⟩
        | _ => cases h
    | function f =>
      by_cases hlen : args.length = f.params.length
      · rw [apply_function_of_eq site n f args line m hlen] at h
        split at h
        · cases h
        · cases h
          exact ⟨_, rfl⟩
        · rename_i hreturned hcontrol
          exact failed_of_signal h hreturned hcontrol
      · rw [apply_function_of_ne site n f args line m hlen] at h
        cases h
        exact ⟨_, rfl⟩
    | _ =>
      cases h
      exact ⟨_, rfl⟩

theorem runProgram_signal {site : Site} {n : Nat} {ss : List Stmt} {last : Value} {t : Signal}
    (h : (runProgram site n ss last m).1 = .signal t) : ∃ fault, t = .failed fault := by
  induction n generalizing ss last m with
  | zero => cases h
  | succ n ih =>
    cases ss with
    | nil => cases h
    | cons s ss =>
      simp only [runProgram] at h
      split at h
      · exact ih h
      · cases h
      · cases h
        exact ⟨_, rfl⟩
      · rename_i hreturned hcontrol
        exact failed_of_signal h hreturned hcontrol

theorem ordinary_of_fine {s : Scopes} {r : Outcome Value} (hf : plain.Fine plain.Held s r)
    (hs : ∀ t, r = .signal t → ∃ fault, t = .failed fault) : r.Ordinary := by
  cases r with
  | value v => exact hf
  | signal t =>
    obtain ⟨fault, rfl⟩ := hs t rfl
    trivial
  | halted h => trivial
  | exhausted => trivial

/-- In every state of every session all that is stored is plain; programs and calls with plain
values end in a plain value or a failure, if they end; and a statement returns plain values. -/
theorem signals_are_never_stored (hm : m.Reached) :
    m.Plain ∧
    (∀ site n program, (runProgram site n program .null m).1.Ordinary) ∧
    (∀ site n f args line, f.Plain → (∀ a ∈ args, a.Plain) →
      (apply site n f args line m).1.Ordinary) ∧
    (∀ site n s v, (exec site n s m).1 = .signal (.returned v) → v.Plain) := by
  have hp := hm.plain
  have hi := plain_inv_iff.mpr hp
  refine ⟨hp, fun site n program => ?_, fun site n f args line hf hargs => ?_,
    fun site n s v hv => ?_⟩
  · have hpost := (plain.guarded n).program site program .null m (hp.program site program)
    exact ordinary_of_fine hpost.fine fun t => runProgram_signal
  · have hpost := (plain.guarded n).call site f args line m ⟨hi, hf, hargs⟩
    exact ordinary_of_fine hpost.fine fun t => apply_signal
  · have hpost := (plain.guarded n).stmt site s m ⟨hi, trivial, trivial⟩
    have hfine := hpost.fine
    rw [hv] at hfine
    exact hfine

/-- After a program that stores what a function returns. -/
theorem signals_are_never_stored_after_return :
    let m := (runProgram ⟨"main", ""⟩ 12
      [.bind "f" (.function [] [.giveBack (some (.array [.bool true 1] 1)) 1] 1) 1,
        .bind "a" (.call (.ident "f" 2) [] 2) 2] .null (.start (.start ⟨[], []⟩ []))).2
    m.Reached ∧ m.scopes.get? m.current "a" = some (.array [.bool true]) ∧ m.Plain := by
  intro m
  have hm : m.Reached := ((Machine.Rests.start _).run _ _ _).reached
  exact ⟨hm, rfl, (signals_are_never_stored hm).1⟩

end MeowLang
