import MeowLang.Proofs.Evaluation.Bound
import MeowLang.Proofs.Evaluation.Discipline
import MeowLang.Proofs.Evaluation.Plan
import MeowLang.Proofs.Evaluation.Seal
import MeowLang.Proofs.Library
import MeowLang.Proofs.Signals

/-! The function `map` of the array library is the map of lists. However the names of a program are
bound after the library was loaded, its own names keep their values and the scope of a call of it is
out of reach for the function it is given, so it does nothing but call that function on one item
after the other. -/
namespace MeowLang

open Guard

/-! ### Loading the library -/

namespace Library

variable {m m' : Machine} {site : Site} {n : Nat}

/-- The function that a load of the library in `m` makes. -/
def mapFunction (m : Machine) : Closure :=
  ⟨m.fresh + 10, ["arr", "f"], mapBody, m.scopes.size + 2⟩

/-- The scopes after a load of the library in `m`: those of the prelude, of its native functions and
of the library that it includes, with its own function. -/
def furrballScopes (m : Machine) : Scopes :=
  (((m.scopes.push ⟨instantiate (m.fresh + 5) prelude, none⟩).push
    ⟨Assoc.insertAll (instantiate m.fresh furrball.exports) [], some m.scopes.size⟩).push
    ⟨Assoc.insertAll (instantiate (m.fresh + 7) clawtility.exports) [],
      some (m.scopes.size + 1)⟩).set (m.scopes.size + 2) "map" (.function (mapFunction m))

theorem load_furrball (site : Site) (n : Nat) (unused : "nya:furrball" ∉ m.loading) :
    load site (n + 6) "nya:furrball" m =
      (.value ((furrballScopes m).exports (m.scopes.size + 2) (m.scopes.size + 1)),
        { m with scopes := furrballScopes m, fresh := m.fresh + 11 }) := by
  have hrun : runProgram { site with file := "nya:furrball" } (n + 4) furrballProgram .null
      ((m.instantiate furrball.exports).2.beginLibrary "nya:furrball"
        (m.instantiate furrball.exports).1) =
      (.value .null, { m with
        scopes := furrballScopes m, fresh := m.fresh + 11, current := m.scopes.size + 2,
        loading := "nya:furrball" :: m.loading }) := by
    simp only [furrballProgram, runProgram, exec, load_succ, plan_clawtility, evalExpr]
    simp only [Machine.instantiate, Eval.layer, Machine.beginLibrary, Machine.addRoots,
      Machine.addScope, Eval.bind_apply, Eval.makeClosure, Eval.bindName, Scopes.size_push,
      furrballScopes, mapFunction]
    rfl
  have hunused : "nya:furrball" ∉ (m.instantiate furrball.exports).2.loading := unused
  have hlib := runLibrary_of_clean site (n + 4) "nya:furrball" (m.instantiate furrball.exports).1
    ofSource_furrball rfl hunused
  rw [load_succ, plan_furrball]
  refine hlib.trans ?_
  simp only [hrun]
  simp only [Machine.endLibrary, List.erase_cons_head, Outcome.map, Machine.addRoots,
    Machine.addScope, Machine.instantiate, Scopes.size_push]

def furrballIncluded (m : Machine) : Machine :=
  { m with scopes := furrballScopes m, fresh := m.fresh + 11 }.enter
    ⟨Assoc.insertAll ((furrballScopes m).exports (m.scopes.size + 2) (m.scopes.size + 1)) [],
      some m.current⟩

theorem exec_load_furrball (site : Site) (n : Nat) (line : Int)
    (unused : "nya:furrball" ∉ m.loading) :
    exec site (n + 7) (.load "nya:furrball" line) m = (.value .null, furrballIncluded m) := by
  simp only [exec, load_furrball site n unused]
  rfl

/-- A load of the library that succeeds was not made by the library itself, and its bound was large
enough. -/
theorem of_load_furrball {exports : List (String × Value)}
    (h : load site n "nya:furrball" m = (.value exports, m')) :
    "nya:furrball" ∉ m.loading ∧ ∃ k, n = k + 6 := by
  cases n with
  | zero => cases h
  | succ n =>
    rw [load_succ, plan_furrball] at h
    simp only at h
    cases n with
    | zero => cases h
    | succ n =>
      obtain ⟨r, hr, heq⟩ | ⟨parsed, r, m₁, hread, -, hunused, hrun, heq⟩ :=
        runLibrary_cases site n "nya:furrball" "nya:furrball" furrballSource
          (m.instantiate furrball.exports).1 (m.instantiate furrball.exports).2
      · cases hr <;> cases heq.symm.trans h
      · refine ⟨hunused, ?_⟩
        cases ofSource_furrball.symm.trans hread
        have hr : ∃ v, r = .value v := by
          have hv := congrArg Prod.fst (heq.symm.trans h)
          cases r with
          | value v => exact ⟨v, rfl⟩
          | _ => cases hv
        obtain ⟨v, rfl⟩ := hr
        rcases n with _ | _ | _ | _ | n
        · cases hrun
        · cases hrun
        · simp only [furrballProgram, runProgram, exec, load] at hrun
          cases hrun
        · simp only [furrballProgram, runProgram, exec, load_succ, plan_clawtility, evalExpr] at hrun
          cases hrun
        · exact ⟨n, rfl⟩

/-! ### The scopes of the library -/

theorem size_furrballScopes (m : Machine) : (furrballScopes m).size = m.scopes.size + 3 := by
  simp [furrballScopes]

theorem grows_furrballScopes (m : Machine) : m.scopes.Grows (furrballScopes m) :=
  (((m.scopes.grows_push _).trans (Scopes.grows_push _ _)).trans (Scopes.grows_push _ _)).trans
    (Scopes.grows_set _ _ _ _)

theorem ordered_furrballScopes (h : m.scopes.Ordered) : (furrballScopes m).Ordered := by
  apply Scopes.Ordered.set
  apply Scopes.Ordered.push
  · apply Scopes.Ordered.push
    · exact h.push nofun
    · rintro o ⟨⟩
      simp
  · rintro o ⟨⟩
    simp

theorem outer?_furrballScopes (m : Machine) :
    (furrballScopes m).outer? (m.scopes.size + 2) = some (m.scopes.size + 1) ∧
    (furrballScopes m).outer? (m.scopes.size + 1) = some m.scopes.size ∧
    (furrballScopes m).outer? m.scopes.size = none := by
  have hne : m.scopes.size ≠ m.scopes.size + 1 + 1 := by omega
  simp [furrballScopes, Scopes.outer?_push, hne]

theorem bindings_furrballScopes (m : Machine) :
    (furrballScopes m).bindings (m.scopes.size + 2) =
      [("length", .native .length (m.fresh + 7)), ("kibble", .native .kibble (m.fresh + 8)),
        ("nap", .native .nap (m.fresh + 9)), ("map", .function (mapFunction m))] ∧
    (furrballScopes m).bindings (m.scopes.size + 1) =
      [("push", .native .push m.fresh), ("pounce", .native .pounce (m.fresh + 1)),
        ("top", .native .top (m.fresh + 2)), ("bottom", .native .bottom (m.fresh + 3)),
        ("includes", .native .includes (m.fresh + 4))] := by
  constructor
  · rw [furrballScopes, Scopes.bindings_set_self (by simp)]
    simp only [Scopes.bindings_push, Scopes.size_push, ↓reduceIte]
    rfl
  · have hne : m.scopes.size + 1 ≠ m.scopes.size + 1 + 1 := by omega
    rw [furrballScopes, Scopes.bindings_set_of_ne (by omega)]
    simp only [Scopes.bindings_push, Scopes.size_push, if_neg hne, ↓reduceIte]
    rfl

/-- The values of the names that `map` looks up. -/
theorem get?_furrballScopes (h : m.scopes.Ordered) :
    (furrballScopes m).get? (m.scopes.size + 2) "length" = some (.native .length (m.fresh + 7)) ∧
    (furrballScopes m).get? (m.scopes.size + 2) "push" = some (.native .push m.fresh) ∧
    (furrballScopes m).get? (m.scopes.size + 2) "bottom" =
      some (.native .bottom (m.fresh + 3)) := by
  obtain ⟨inner, own⟩ := bindings_furrballScopes m
  have hget := (ordered_furrballScopes h).acyclic.get?_of_outer (outer?_furrballScopes m).1
  refine ⟨?_, ?_, ?_⟩
  · apply Scopes.get?_of_lookup
    rw [inner]
    rfl
  all_goals
    rw [hget, inner]
    apply Scopes.get?_of_lookup
    rw [own]
    rfl

/-- The names that an include of the library in `m` makes. -/
theorem bindings_of_load {line : Int} {v : Value} (hm : m.scopes.Ordered)
    (h : exec site (n + 1) (.load "nya:furrball" line) m = (.value v, m')) :
    m'.scopes.bindings m'.current =
      [("push", .native .push m.fresh), ("pounce", .native .pounce (m.fresh + 1)),
        ("top", .native .top (m.fresh + 2)), ("bottom", .native .bottom (m.fresh + 3)),
        ("includes", .native .includes (m.fresh + 4)), ("length", .native .length (m.fresh + 7)),
        ("kibble", .native .kibble (m.fresh + 8)), ("nap", .native .nap (m.fresh + 9)),
        ("map", .function (mapFunction m))] := by
  obtain ⟨exports, m₁, hload, hlayers⟩ := exec_load_value h
  obtain ⟨unused, k, rfl⟩ := of_load_furrball hload
  cases (load_furrball site k unused).symm.trans hload
  obtain ⟨inner, own⟩ := bindings_furrballScopes m
  obtain ⟨houter, houter', -⟩ := outer?_furrballScopes m
  have hord := ordered_furrballScopes hm
  have hupTo (rest : List Nat) : Scopes.upTo (m.scopes.size + 1)
      ((m.scopes.size + 2) :: (m.scopes.size + 1) :: rest) =
      [m.scopes.size + 2, m.scopes.size + 1] := by
    simp [Scopes.upTo]
  rw [hlayers.bindings, Scopes.exports, hord.acyclic.chain_of_outer houter,
    hord.acyclic.chain_of_outer houter', hupTo]
  simp only [List.foldr, inner, own]
  rfl

theorem get?_map_of_load {line : Int} {v : Value} (hm : m.scopes.Ordered)
    (h : exec site (n + 1) (.load "nya:furrball" line) m = (.value v, m')) :
    m'.scopes.get? m'.current "map" = some (.function (mapFunction m)) := by
  apply Scopes.get?_of_lookup
  rw [bindings_of_load hm h]
  rfl

/-! ### Sealing the library -/

def Makes (m : Machine) (k : Nat) : Prop := m.scopes.size ≤ k ∧ k < m.scopes.size + 3

def Uses (x : String) : Prop := x ∈ ["length", "push", "bottom"]

end Library

open Library

/-- The names that `map` looks up keep their values in the scopes of the library. -/
def Guard.furrball (m : Machine) : Guard.Open := sealed (furrballScopes m) (Makes m) Uses

namespace Library

variable {m m' : Machine} {site : Site} {n : Nat}

theorem furrball_lenient (m : Machine) : (Guard.furrball m).Lenient m.scopes.size :=
  sealed_lenient fun _ hk => hk.1

theorem not_rebinds_of_uses {t : Stmt} {x : String} (ht : t ∈ mapBody) (hx : Uses x) :
    ¬ t.Rebinds x := by
  have hres : x ≠ "res" := by
    rintro rfl
    simp [Uses] at hx
  simp only [mapBody, List.mem_cons, List.not_mem_nil, or_false] at ht
  rcases ht with rfl | rfl | rfl | rfl <;> simp [iterBody, hres]

/-- The guard holds after a load of the library. -/
theorem furrball_postOf {exports : List (String × Value)}
    (hj : ordered.Pre ⟨site, .library "nya:furrball", m⟩)
    (h : load site n "nya:furrball" m = (.value exports, m')) :
    (Guard.furrball m).PostOf n ⟨site, .library "nya:furrball", m⟩ := by
  obtain ⟨unused, k, rfl⟩ := of_load_furrball h
  have hr := (brackets (k + 6)).library site "nya:furrball" m
  have hload := load_furrball site k unused
  have hinv (current : Nat) : (Guard.furrball m).Inv
      { m with scopes := furrballScopes m, fresh := m.fresh + 11, current := current } := by
    refine ⟨⟨.refl _, fun k hk => ⟨?_, fun _ _ => rfl⟩⟩, trivial, fun i _ p hp => ?_⟩
    · rw [size_furrballScopes]
      exact hk.2
    · rcases Scopes.mem_bindings_set hp with hp | rfl
      · rcases Scopes.mem_bindings_push hp with hp | hp
        · rcases Scopes.mem_bindings_push hp with hp | hp
          · rcases Scopes.mem_bindings_push hp with hp | hp
            · have hheld := (furrball_lenient m).held hj.inv (Nat.le_refl _)
                (hj.inv.held i trivial p hp)
              exact hheld.grows (grows_furrballScopes m)
            · exact heldIn_instantiate _ _ p hp
          · exact heldIn_insertAll (heldIn_instantiate _ _) p hp
        · exact heldIn_insertAll (heldIn_instantiate _ _) p hp
      · exact held_function fun f hf => .inr fun t ht x hx => by
          cases hf
          exact not_rebinds_of_uses ht hx
  rw [hload] at hr
  show (Guard.furrball m).Post (Guard.furrball m).HeldIn m (load site (k + 6) "nya:furrball" m)
  rw [hload]
  exact ⟨hinv m.current, onward_of_returns hr, (hinv (m.scopes.size + 2)).held_exports⟩

/-- A load of the library calls nothing. -/
theorem not_nested_call {n' : Nat} {site' : Site} {f : Value} {args : List Value} {line : Int}
    (h : Nested n ⟨site, .library "nya:furrball", m⟩ n' ⟨site', .call f args line, m'⟩) :
    False := by
  cases h with
  | step starts rest =>
    cases starts with
    | text plan =>
      cases (plan_furrball _ _).symm.trans plan
      cases rest with
      | step starts rest =>
        cases starts with
        | run read =>
          cases ofSource_furrball.symm.trans read
          cases rest with
          | step starts rest =>
            cases starts with
            | opening =>
              cases rest with
              | step starts rest =>
                cases starts with
                | load =>
                  cases rest with
                  | step starts rest =>
                    cases starts with
                    | text plan => cases (plan_clawtility _ _).symm.trans plan
            | onward done =>
              cases rest with
              | step starts rest =>
                cases starts with
                | opening =>
                  cases rest with
                  | step starts rest =>
                    cases starts with
                    | bound =>
                      cases rest with
                      | step starts rest => cases starts
                | onward done =>
                  cases rest with
                  | step starts rest => cases starts

/-- A call of `map` after an include of the library, in the same program or in a later one of the
session, finds the names that it looks up. -/
theorem pre_call {rest : Machine} {program : Program} {n₀ n₁ : Nat} {site₀ site₁ : Site}
    {line₀ line : Int} {v : Value} {args : List Value} (hrest : rest.Rests)
    (hload : Nested n ⟨site, .program program .null, rest⟩ n₀
      ⟨site₀, .stmt (.load "nya:furrball" line₀), m⟩)
    (hdone : (exec site₀ n₀ (.load "nya:furrball" line₀) m).1 = .value v)
    (hcall : Follows n ⟨site, .program program .null, rest⟩ n₁
      ⟨site₁, .call (.function (mapFunction m)) args line, m'⟩) :
    ordered.Pre ⟨site₁, .call (.function (mapFunction m)) args line, m'⟩ ∧
      (Guard.furrball m).Pre ⟨site₁, .call (.function (mapFunction m)) args line, m'⟩ := by
  have hfree : ordered.Free rest := ⟨hrest.ordered, trivial, fun _ => trivial⟩
  have hj := hfree.pre site program
  have hpre := hfree.follows hcall
  refine ⟨hpre, ?_⟩
  cases n₀ with
  | zero => cases hdone
  | succ n₀ =>
    obtain ⟨exports, m₁, hvalue, -⟩ := exec_load_value (Prod.ext hdone rfl)
    have hload := hload.snoc .load
    have hpost := furrball_postOf (hj.nested hload) hvalue
    -- the function is held, so the library's scopes are there
    have hscope : m.scopes.size + 2 < m'.scopes.size := hpre.allowed.1 _ (.refl _) _ rfl
    have hlt : m.scopes.size < m'.scopes.size := by omega
    exact (hcall.pre_or_nested hload (furrball_lenient m) hj hpost hlt).resolve_right not_nested_call

end Library

/-! ### Calls of a function on one item after the other -/

/-- From `m` to `m'`, scopes were made, identities were given out, and perhaps scope `c` was changed.
No other scope that was there was, and neither were the libraries being loaded and the world. -/
structure Machine.Quiet (c : Nat) (m m' : Machine) : Prop where
  grows : m.scopes.Grows m'.scopes
  bindings_eq : ∀ i < m.scopes.size, i ≠ c → m'.scopes.bindings i = m.scopes.bindings i
  loading_eq : m'.loading = m.loading
  world_eq : m'.world = m.world
  fresh_le : m.fresh ≤ m'.fresh

/-- In the course of a job, `f` is called on the items in turn, until a call is stopped or there is
none left, and nothing happens before, between and after the calls but to scope `c` and to new
scopes. The values that the calls give are `vs`, and `stop` is what stopped the last one, if it was
stopped. -/
inductive Calls (j : Job) (site : Site) (f : Value) (line : Int) (c : Nat) :
    List Value → Machine → List Value → Option Stop → Machine → Prop
  | none {m m' : Machine} (quiet : m.Quiet c m') : Calls j site f line c [] m [] none m'
  | value {x v : Value} {xs vs : List Value} {stop : Option Stop} {m m₁ m₂ m' : Machine}
      (quiet : m.Quiet c m₁) (made : j.Evaluates ⟨site, .call f [x] line, m₁⟩)
      (call : Settles (fun n => apply site n f [x] line m₁) (.value v, m₂))
      (rest : Calls j site f line c xs m₂ vs stop m') :
      Calls j site f line c (x :: xs) m (v :: vs) stop m'
  | stop {x : Value} {xs : List Value} {stop : Stop} {m m₁ m₂ m' : Machine} (quiet : m.Quiet c m₁)
      (made : j.Evaluates ⟨site, .call f [x] line, m₁⟩)
      (call : Settles (fun n => apply site n f [x] line m₁) (stop.outcome, m₂))
      (quiet' : m₂.Quiet c m') : Calls j site f line c (x :: xs) m [] (some stop) m'

section
variable {j : Job} {site : Site} {f : Value} {line : Int} {c : Nat} {xs vs : List Value}
  {stop : Option Stop} {m m₁ m₂ m' : Machine}

theorem Machine.Quiet.trans (h : m.Quiet c m₁) (h' : m₁.Quiet c m₂) : m.Quiet c m₂ where
  grows := h.grows.trans h'.grows
  bindings_eq i hi hc := by
    rw [h'.bindings_eq i (Nat.lt_of_lt_of_le hi h.grows.size_le) hc, h.bindings_eq i hi hc]
  loading_eq := h'.loading_eq.trans h.loading_eq
  world_eq := h'.world_eq.trans h.world_eq
  fresh_le := Nat.le_trans h.fresh_le h'.fresh_le

theorem Machine.quiet_enter (c : Nat) (m : Machine) (scope : Scope) : m.Quiet c (m.enter scope) :=
  ⟨m.scopes.grows_push scope, fun _ hi _ => Scopes.bindings_push_of_lt hi scope, rfl, rfl,
    Nat.le_refl _⟩

theorem Machine.quiet_set (c : Nat) (m : Machine) (x : String) (v : Value) :
    m.Quiet c { m with scopes := m.scopes.set c x v } :=
  ⟨m.scopes.grows_set c x v, fun _ _ hc => Scopes.bindings_set_of_ne hc, rfl, rfl, Nat.le_refl _⟩

/-- Where the machine is does not matter. -/
theorem Machine.quiet_move (c : Nat) (m : Machine) (current : Nat) :
    m.Quiet c { m with current := current } :=
  ⟨.refl _, fun _ _ _ => rfl, rfl, rfl, Nat.le_refl _⟩

theorem Calls.after (hq : m₁.Quiet c m) (h : Calls j site f line c xs m vs stop m') :
    Calls j site f line c xs m₁ vs stop m' := by
  cases h with
  | none quiet => exact .none (hq.trans quiet)
  | value quiet made call rest => exact .value (hq.trans quiet) made call rest
  | stop quiet made call quiet' => exact .stop (hq.trans quiet) made call quiet'

theorem Calls.before (h : Calls j site f line c xs m vs stop m') (hq : m'.Quiet c m₂) :
    Calls j site f line c xs m vs stop m₂ := by
  induction h with
  | none quiet => exact .none (quiet.trans hq)
  | value quiet made call _ ih => exact .value quiet made call (ih hq)
  | stop quiet made call quiet' => exact .stop quiet made call (quiet'.trans hq)

/-- A call that comes to an end gives a value or is stopped. -/
theorem settles_of_ends {args : List Value} {n : Nat}
    (h : Job.Ends n ⟨site, .call f args line, m⟩) :
    (∃ v m', Settles (fun n => apply site n f args line m) (.value v, m')) ∨
      ∃ stop m', Settles (fun n => apply site n f args line m) (Stop.outcome stop, m') := by
  rcases hr : apply site n f args line m with ⟨r, m'⟩
  rw [Job.Ends, hr] at h
  have hsettles := settles_of_extends (fun n => (suffices_all n).call site f args line) hr h
  cases r with
  | value v => exact .inl ⟨v, m', hsettles⟩
  | signal t =>
    obtain ⟨fault, rfl⟩ := apply_signal (congrArg Prod.fst hr)
    exact .inr ⟨.fault fault, m', hsettles⟩
  | halted e => exact .inr ⟨.halt e, m', hsettles⟩
  | exhausted => exact absurd rfl h

end

/-- A call does not depend on where it is made. -/
theorem apply_move (site : Site) (n : Nat) (f : Value) (args : List Value) (line : Int)
    (m : Machine) (current : Nat) :
    apply site n f args line { m with current := current } =
      ((apply site n f args line m).1,
        { (apply site n f args line m).2 with current := current }) := by
  cases n with
  | zero => rfl
  | succ n =>
    cases f with
    | native f identity =>
      simp only [apply, Eval.callNative]
      split <;> rfl
    | function f =>
      by_cases hlen : args.length = f.params.length
      · rw [apply_function_of_eq _ _ _ _ _ _ hlen, apply_function_of_eq _ _ _ _ _ _ hlen]
        have hwithin (scope : Scope) (p : Eval Value) :
            Eval.within scope p { m with current := current } =
              ((Eval.within scope p m).1,
                { (Eval.within scope p m).2 with current := current }) := rfl
        rw [hwithin]
        cases Eval.within ⟨Assoc.insertAll (f.params.zip args) [], some f.scope⟩
            (execAll site n f.body .null) m with
        | mk r m' =>
          cases r with
          | signal s => cases s <;> rfl
          | _ => rfl
      · rw [apply_function_of_ne _ _ _ _ _ _ hlen, apply_function_of_ne _ _ _ _ _ _ hlen]
        rfl
    | _ => rfl

theorem Guard.Open.after_call (g : Guard.Open) {m m' : Machine} {site : Site} {n home : Nat}
    {f : Value} {args : List Value} {line : Int} {r : Outcome Value}
    (hi : g.Inv { m with current := home }) (hf : g.Held m.scopes f)
    (hargs : g.HeldAll m.scopes args) (hcall : apply site n f args line m = (r, m')) :
    g.Inv { m' with current := home } ∧ ∀ v, r = .value v → g.Held m'.scopes v := by
  have hpost := (g.guarded n).call site f args line { m with current := home } ⟨hi, hf, hargs⟩
  rw [apply_move, hcall] at hpost
  refine ⟨hpost.inv, ?_⟩
  rintro v rfl
  exact hpost.fine

/-! ### What a call of `map` keeps -/

namespace Library

variable {m₀ m m' : Machine} {c home : Nat} {names : List (String × Value)} {s s' : Scopes}
  {v w : Value}

/-- A value that the function given to `map` may be called with. -/
structure Given (m₀ : Machine) (c : Nat) (s : Scopes) (v : Value) : Prop where
  ordered : Guard.ordered.Held s v
  library : (Guard.furrball m₀).Held s v
  frame : (hidden c []).Held s v

/-- The scope `c` of a call of `map`, which was made in the scope `home`, binds `names`. Nothing
outside can reach it, and the names of the library that was loaded in `m₀` have their values. -/
structure Iterates (m₀ : Machine) (c home : Nat) (names : List (String × Value)) (m : Machine) :
    Prop where
  loaded : m₀.scopes.Ordered
  ordered : Guard.ordered.Inv { m with current := home }
  library : (Guard.furrball m₀).Inv { m with current := home }
  frame : (hidden c names).Inv { m with current := home }
  outer : m.scopes.outer? c = some (m₀.scopes.size + 2)

theorem Given.grows (h : Given m₀ c s v) (hg : s.Grows s') : Given m₀ c s' v :=
  ⟨h.ordered.grows hg, h.library.grows hg, h.frame.grows hg⟩

theorem given_array {xs : List Value} (h : ∀ x ∈ xs, Given m₀ c s x) : Given m₀ c s (.array xs) :=
  ⟨held_array fun x hx => (h x hx).ordered, held_array fun x hx => (h x hx).library,
    held_array fun x hx => (h x hx).frame⟩

/-- The iteration enters a new scope. -/
theorem Iterates.enter (h : Iterates m₀ c home names m) {scope : Scope}
    (ho : ∀ o, scope.outer = some o → o < m.scopes.size)
    (hb : ∀ p ∈ scope.bindings, Given m₀ c m.scopes p.2) :
    Iterates m₀ c home names (m.enter scope) where
  loaded := h.loaded
  ordered := h.ordered.push (h.ordered.state.push ho) fun p hp => (hb p hp).ordered
  library := h.library.push (h.library.state.push scope) fun p hp => (hb p hp).library
  frame := by
    refine h.frame.push ⟨?_, ?_⟩ fun p hp => (hb p hp).frame
    · rw [Scopes.size_push]
      exact Nat.lt_succ_of_lt h.frame.state.1
    · rw [Scopes.bindings_push_of_lt h.frame.state.1]
      exact h.frame.state.2
  outer := (Scopes.outer?_push_of_lt h.frame.state.1 scope).trans h.outer

theorem Iterates.lt (h : Iterates m₀ c home names m) : m₀.scopes.size + 2 < c :=
  h.ordered.state c _ h.outer

/-- A name of the call gets a new value. -/
theorem Iterates.set (h : Iterates m₀ c home names m) (x : String)
    (ho : Guard.ordered.Held m.scopes w) (hl : (Guard.furrball m₀).Held m.scopes w) :
    Iterates m₀ c home (Assoc.insert x w names) { m with scopes := m.scopes.set c x w } where
  loaded := h.loaded
  ordered := h.ordered.set (h.ordered.state.set c x w) ho
  library := by
    refine h.library.set (h.library.state.set (fun _ hc => ?_) w) hl
    have hlt := h.lt
    have hle := hc.2
    omega
  frame := by
    have hg := m.scopes.grows_set c x w
    refine ⟨⟨?_, ?_⟩, h.frame.place.grows hg, fun i hi p hp => ?_⟩
    · rw [Scopes.size_set]
      exact h.frame.state.1
    · rw [Scopes.bindings_set_self h.frame.state.1]
      exact congrArg (Assoc.insert x w) h.frame.state.2
    · rw [Scopes.bindings_set_of_ne hi] at hp
      exact (h.frame.held i hi p hp).grows hg
  outer := (Scopes.outer?_set _ _ _ _ _).trans h.outer

/-- The function that was given is called. -/
theorem Iterates.call (h : Iterates m₀ c home names m) {site : Site} {n : Nat} {f x : Value}
    {line : Int} {r : Outcome Value} (hf : Given m₀ c m.scopes f) (hx : Given m₀ c m.scopes x)
    (hcall : apply site n f [x] line m = (r, m')) :
    Iterates m₀ c home names m' ∧ ∀ v, r = .value v → Given m₀ c m'.scopes v := by
  have hg := ((brackets n).call site f [x] line m).grows
  rw [hcall] at hg
  have one {g : Guard} (hx : g.Held m.scopes x) : g.HeldAll m.scopes [x] := by
    intro y hy
    rw [List.mem_singleton.mp hy]
    exact hx
  obtain ⟨ho, ho'⟩ := Guard.ordered.after_call h.ordered hf.ordered (one hx.ordered) hcall
  obtain ⟨hl, hl'⟩ := (Guard.furrball m₀).after_call h.library hf.library (one hx.library) hcall
  obtain ⟨hc, hc'⟩ := (hidden c names).after_call h.frame hf.frame (one hx.frame) hcall
  refine ⟨⟨h.loaded, ho, hl, hc, ?_⟩, fun v hv => ⟨ho' v hv, hl' v hv, hc' v hv⟩⟩
  rw [hg.outer_eq c h.frame.state.1]
  exact h.outer

structure Inside (m₀ : Machine) (c home : Nat) (names : List (String × Value)) (a : Value)
    (m : Machine) : Prop extends Iterates m₀ c home names m where
  inner : m.scopes.outer? m.current = some c
  array : m.scopes.bindings m.current = [("array", a)]

variable {a : Value}

theorem Iterates.inside (h : Iterates m₀ c home names m) (ha : Given m₀ c m.scopes a) :
    Inside m₀ c home names a (m.enter ⟨[("array", a)], some c⟩) where
  toIterates := by
    apply h.enter
    · rintro o ⟨⟩
      exact h.frame.state.1
    · intro p hp
      rw [List.mem_singleton.mp hp]
      exact ha
  inner := Scopes.outer?_push_self _ _
  array := Scopes.bindings_push_self _ _

/-- The function that was given cannot reach the scope of the inner function either. -/
theorem Iterates.call_inside (h : Iterates m₀ c home names m) {site : Site} {n : Nat} {f x : Value}
    {line : Int} {r : Outcome Value} (ha : Given m₀ c m.scopes a) (hf : Given m₀ c m.scopes f)
    (hx : Given m₀ c m.scopes x)
    (hcall : apply site n f [x] line (m.enter ⟨[("array", a)], some c⟩) = (r, m')) :
    Inside m₀ c home names a m' ∧ ∀ v, r = .value v → Given m₀ c m'.scopes v := by
  have hg := m.scopes.grows_push ⟨[("array", a)], some c⟩
  have hr := ((brackets n).call site f [x] line).of_eq hcall
  have hcurrent : m'.current = m.scopes.size := hr.current_eq
  obtain ⟨hiterates, hgiven⟩ := (h.inside ha).call (hf.grows hg) (hx.grows hg) hcall
  have hl : (hidden m.scopes.size [("array", a)]).Lenient m.scopes.size := hidden_lenient
  obtain ⟨hhidden, -⟩ := (hidden m.scopes.size [("array", a)]).after_call
    (hidden_push h.ordered ⟨[("array", a)], some c⟩)
    ((hl.held h.ordered (Nat.le_refl _) hf.ordered).grows hg)
    (fun y hy => by
      rw [List.mem_singleton.mp hy]
      exact (hl.held h.ordered (Nat.le_refl _) hx.ordered).grows hg) hcall
  refine ⟨⟨hiterates, ?_, ?_⟩, hgiven⟩
  · rw [hcurrent, hr.grows.outer_eq]
    · exact Scopes.outer?_push_self _ _
    · exact Nat.lt_of_lt_of_eq (Nat.lt_succ_self _) (Scopes.size_push _ _).symm
  · rw [hcurrent]
    exact hhidden.state.2

theorem Inside.set (h : Inside m₀ c home names a m) (x : String)
    (ho : Guard.ordered.Held m.scopes w) (hl : (Guard.furrball m₀).Held m.scopes w) :
    Inside m₀ c home (Assoc.insert x w names) a { m with scopes := m.scopes.set c x w } where
  toIterates := h.toIterates.set x ho hl
  inner := (Scopes.outer?_set _ _ _ _ _).trans h.inner
  array := by
    have hlt := h.ordered.state _ _ h.inner
    rw [Scopes.bindings_set_of_ne (Nat.ne_of_gt hlt)]
    exact h.array

/-- What a name means inside the inner function. -/
theorem Inside.get? (h : Inside m₀ c home names a m) (x : String) :
    m.scopes.get? m.current x = ([("array", a)].lookup x).or
      ((names.lookup x).or (m.scopes.get? (m₀.scopes.size + 2) x)) := by
  have hord : m.scopes.Ordered := h.ordered.state
  have hnames : m.scopes.bindings c = names := h.frame.state.2
  rw [hord.acyclic.get?_of_outer h.inner, hord.acyclic.get?_of_outer h.outer, h.array, hnames]

theorem Iterates.get?_library (h : Iterates m₀ c home names m) :
    m.scopes.get? (m₀.scopes.size + 2) "length" = some (.native .length (m₀.fresh + 7)) ∧
    m.scopes.get? (m₀.scopes.size + 2) "push" = some (.native .push m₀.fresh) ∧
    m.scopes.get? (m₀.scopes.size + 2) "bottom" = some (.native .bottom (m₀.fresh + 3)) := by
  have hord := ordered_furrballScopes h.loaded
  have hstate : (furrballScopes m₀).Sealed (Makes m₀) Uses m.scopes := h.library.state
  have halong : (furrballScopes m₀).Along (Makes m₀) (m₀.scopes.size + 2) := by
    obtain ⟨houter, houter', hroot⟩ := outer?_furrballScopes m₀
    have hsize := size_furrballScopes m₀
    have hbase := Scopes.along_root hroot (P := Makes m₀) ⟨by omega, by omega⟩ (by omega)
    exact (hbase.inner houter' ⟨by omega, by omega⟩).inner houter ⟨by omega, by omega⟩
  obtain ⟨hlength, hpush, hbottom⟩ := get?_furrballScopes h.loaded
  rw [hstate.get?_eq hord halong (by simp [Uses]), hstate.get?_eq hord halong (by simp [Uses]),
    hstate.get?_eq hord halong (by simp [Uses])]
  exact ⟨hlength, hpush, hbottom⟩

theorem Inside.holder? (h : Inside m₀ c home names a m) (hres : Assoc.contains "res" names = true) :
    m.scopes.holder? m.current "res" = some c := by
  have hord : m.scopes.Ordered := h.ordered.state
  have hnames : m.scopes.bindings c = names := h.frame.state.2
  rw [Scopes.holder?, hord.acyclic.chain_of_outer h.inner, hord.acyclic.chain_of_outer h.outer,
    List.find?_cons_of_neg, List.find?_cons_of_pos]
  · rw [hnames]
    exact hres
  · rw [h.array]
    simp [Assoc.contains]

/-! ### The inner function -/

/-- The names of a call of `map` with these results so far. -/
def mapNames (arr f : Value) (iter : Closure) (done : List Value) : List (String × Value) :=
  [("arr", arr), ("f", f), ("res", .array done), ("iter", .function iter)]

section
variable {arr f x : Value} {iter : Closure} {done xs ys : List Value} {site : Site}

theorem Inside.settles_test (h : Inside m₀ c home (mapNames arr f iter done) (.array ys) m)
    (hzero : (Float.ofNat ys.length == 0) = ys.isEmpty) :
    Settles (fun n => evalExpr site n (.between .equal (.call (.ident "length" 7)
      [.ident "array" 7] 7) (.number 0 7) 7) m) (.value (.bool ys.isEmpty), m) := by
  have hlength : m.scopes.get? m.current "length" = some (.native .length (m₀.fresh + 7)) :=
    (h.get? "length").trans h.get?_library.1
  have harray : m.scopes.get? m.current "array" = some (.array ys) := h.get? "array"
  have hcall : Settles (fun n => evalExpr site n (.call (.ident "length" 7) [.ident "array" 7] 7) m)
      (.value (.number (Float.ofNat ys.length)), m) :=
    settles_call (settles_ident hlength)
      (settles_all_cons (settles_ident harray) settles_all_nil) settles_native
  have hnumber : Settles (fun n => evalExpr site n (.number 0 7) m) (.value (.number 0), m) :=
    .of_succ fun _ => rfl
  have hequal : Value.binary .equal (.number (Float.ofNat ys.length)) (.number 0) =
      .ok (.bool ys.isEmpty) := by
    rw [← hzero]
    rfl
  refine .succ (hcall.bind (hnumber.bind ?_))
  simp only [hequal]
  exact .const _

/-- There is no item left. -/
theorem Inside.settles_nil (h : Inside m₀ c home (mapNames arr f iter done) (.array []) m)
    (hzero : (Float.ofNat 0 == 0) = true) :
    Settles (fun n => execAll site n iterBody .null m)
      (.signal (.returned .null), { m.nest with current := m.current }) := by
  have hblock : Settles (fun n => execAll site n [.giveBack none 8] .null m.nest)
      (.signal (.returned .null), m.nest) :=
    settles_block_last (.of_succ fun _ => rfl)
  have htest : Settles (fun n => evalExpr site n _ m) _ := h.settles_test hzero
  exact .succ (.bind_signal (settles_expr (.succ (htest.bind hblock.within))))

/-- With an item left, the test does nothing. -/
theorem Inside.settles_skip (h : Inside m₀ c home (mapNames arr f iter done) (.array (x :: xs)) m)
    (hzero : (Float.ofNat (xs.length + 1) == 0) = false) :
    Settles (fun n => exec site n (.expr (.cond (.between .equal (.call (.ident "length" 7)
      [.ident "array" 7] 7) (.number 0 7) 7) [.giveBack none 8] none 7) 7) m) (.value .null, m) := by
  have htest : Settles (fun n => evalExpr site n _ m) _ := h.settles_test hzero
  exact settles_expr (.succ (htest.bind (.const _)))

/-- The first item is taken out. -/
theorem Inside.settles_first (h : Inside m₀ c home (mapNames arr f iter done) (.array (x :: xs)) m) :
    Settles (fun n => evalAll site n [.index (.ident "array" 10) (.number 0 10) 10] m)
      (.value [x], m) := by
  have harray : m.scopes.get? m.current "array" = some (.array (x :: xs)) := h.get? "array"
  have hzero : Dyadic.ofFloat? 0 = some ⟨false, 0, -1074⟩ := by decide +kernel
  have htruncate : Dyadic.truncate ⟨false, 0, -1074⟩ = 0 := by decide +kernel
  have hitem : (Value.array (x :: xs)).index (.number 0) = .ok x := by
    simp [Value.index, Value.itemAt, hzero, htruncate]
  have hnumber : Settles (fun n => evalExpr site n (.number 0 10) m) (.value (.number 0), m) :=
    .of_succ fun _ => rfl
  refine settles_all_cons (.succ ((settles_ident harray).bind (hnumber.bind ?_))) settles_all_nil
  simp only [hitem]
  exact .const _

/-- What the function that was given makes of the first item. -/
theorem Inside.settles_item (h : Inside m₀ c home (mapNames arr f iter done) (.array (x :: xs)) m)
    {r : Outcome Value × Machine} (hcall : Settles (fun n => apply site n f [x] 10 m) r) :
    Settles (fun n => evalExpr site n (.call (.ident "f" 10)
      [.index (.ident "array" 10) (.number 0 10) 10] 10) m) r := by
  have hf : m.scopes.get? m.current "f" = some f := h.get? "f"
  exact settles_call (settles_ident hf) h.settles_first hcall

theorem Inside.get?_push (h : Inside m₀ c home (mapNames arr f iter done) a m) :
    m.scopes.get? m.current "push" = some (.native .push m₀.fresh) :=
  (h.get? "push").trans h.get?_library.2.1

theorem Inside.get?_res (h : Inside m₀ c home (mapNames arr f iter done) a m) :
    m.scopes.get? m.current "res" = some (.array done) := h.get? "res"

/-- The function that was given is called on the first item. -/
theorem Inside.evaluates_item (h : Inside m₀ c home (mapNames arr f iter done) (.array (x :: xs)) m)
    (hzero : (Float.ofNat (xs.length + 1) == 0) = false) (last : Value) :
    Job.Evaluates ⟨site, .block iterBody last, m⟩ ⟨site, .call f [x] 10, m⟩ := by
  have hf : m.scopes.get? m.current "f" = some f := h.get? "f"
  apply Job.Evaluates.trans (.of_settles (h.settles_skip hzero) fun _ => .next)
  apply Job.Evaluates.trans (.of_starts fun _ => .first)
  apply Job.Evaluates.trans (.of_starts fun _ => .rebound)
  apply Job.Evaluates.trans (.of_settles (settles_ident h.get?_push) fun _ => .arguments)
  apply Job.Evaluates.trans (.of_settles (settles_ident h.get?_res) fun _ => .tail)
  apply Job.Evaluates.trans (.of_starts fun _ => .head)
  exact .call (settles_ident hf) h.settles_first

/-- A call on an item is stopped, and so is the iteration. -/
theorem Inside.settles_stop (h : Inside m₀ c home (mapNames arr f iter done) (.array (x :: xs)) m)
    (hzero : (Float.ofNat (xs.length + 1) == 0) = false) {stop : Stop}
    (hcall : Settles (fun n => apply site n f [x] 10 m) (stop.outcome, m')) :
    Settles (fun n => execAll site n iterBody .null m) (stop.outcome, m') := by
  have hargs : Settles (fun n => evalAll site n [.ident "res" 10, .call (.ident "f" 10)
      [.index (.ident "array" 10) (.number 0 10) 10] 10] m) (stop.outcome, m') := by
    refine .succ ((settles_ident h.get?_res).bind ?_)
    exact .bind_stop (.succ (h.settles_item hcall).bind_stop)
  refine settles_block_cons (h.settles_skip hzero) (.succ (.bind_stop (.succ (.bind_stop ?_))))
  exact .succ ((settles_ident h.get?_push).bind hargs.bind_stop)

/-- A call on an item gives a value, which is added to the results. -/
theorem Inside.settles_rebind (h : Inside m₀ c home (mapNames arr f iter done) (.array (x :: xs)) m)
    (hcall : Settles (fun n => apply site n f [x] 10 m) (.value v, m'))
    (h' : Inside m₀ c home (mapNames arr f iter done) (.array (x :: xs)) m') :
    Settles (fun n => exec site n (.rebind "res" (.call (.ident "push" 10) [.ident "res" 10,
      .call (.ident "f" 10) [.index (.ident "array" 10) (.number 0 10) 10] 10] 10) 10) m)
      (.value .null, { m' with scopes := m'.scopes.set c "res" (.array (done ++ [v])) }) := by
  have hvalue : Settles (fun n => evalExpr site n (.call (.ident "push" 10) [.ident "res" 10,
      .call (.ident "f" 10) [.index (.ident "array" 10) (.number 0 10) 10] 10] 10) m)
      (.value (.array (done ++ [v])), m') :=
    settles_call (settles_ident h.get?_push) (settles_all_cons (settles_ident h.get?_res)
      (settles_all_cons (h.settles_item hcall) settles_all_nil)) settles_native
  refine .succ (hvalue.bind ?_)
  simp only [Eval.bind_apply, Eval.rebindName, h'.holder? rfl]
  exact .const _

/-- The inner function names itself and the array without its first item. -/
theorem Inside.settles_again (h : Inside m₀ c home (mapNames arr f iter done) (.array (x :: xs)) m) :
    Settles (fun n => evalExpr site n (.ident "iter" 11) m) (.value (.function iter), m) ∧
      Settles (fun n => evalAll site n [.call (.ident "bottom" 11) [.ident "array" 11] 11] m)
        (.value [.array xs], m) := by
  have hiter : m.scopes.get? m.current "iter" = some (.function iter) := h.get? "iter"
  have hbottom : m.scopes.get? m.current "bottom" = some (.native .bottom (m₀.fresh + 3)) :=
    (h.get? "bottom").trans h.get?_library.2.2
  have harray : m.scopes.get? m.current "array" = some (.array (x :: xs)) := h.get? "array"
  exact ⟨settles_ident hiter, settles_all_cons (settles_call (settles_ident hbottom)
    (settles_all_cons (settles_ident harray) settles_all_nil) settles_native) settles_all_nil⟩

section
variable (h : Inside m₀ c home (mapNames arr f iter done) (.array (x :: xs)) m)
  (hzero : (Float.ofNat (xs.length + 1) == 0) = false)
  (hcall : Settles (fun n => apply site n f [x] 10 m) (.value v, m'))
  (h' : Inside m₀ c home (mapNames arr f iter done) (.array (x :: xs)) m')
  (h'' : Inside m₀ c home (mapNames arr f iter (done ++ [v])) (.array (x :: xs))
    { m' with scopes := m'.scopes.set c "res" (.array (done ++ [v])) })

include h hzero hcall h' h''

/-- After a call that gives a value the inner function calls itself. -/
theorem Inside.evaluates_rest (last : Value) :
    Job.Evaluates ⟨site, .block iterBody last, m⟩ ⟨site, .call (.function iter) [.array xs] 11,
      { m' with scopes := m'.scopes.set c "res" (.array (done ++ [v])) }⟩ := by
  apply Job.Evaluates.trans (.of_settles (h.settles_skip hzero) fun _ => .next)
  apply Job.Evaluates.trans (.of_settles (h.settles_rebind hcall h') fun _ => .next)
  apply Job.Evaluates.trans (.of_starts fun _ => .first)
  apply Job.Evaluates.trans (.of_starts fun _ => .value)
  exact .call h''.settles_again.1 h''.settles_again.2

/-- After a call that gives a value the iteration goes on. -/
theorem Inside.settles_cons {r : Outcome Value} {m'' : Machine}
    (hrest : Settles (fun n => apply site n (.function iter) [.array xs] 11
      { m' with scopes := m'.scopes.set c "res" (.array (done ++ [v])) }) (r, m'')) :
    Settles (fun n => execAll site n iterBody .null m) (r, m'') := by
  have hagain := settles_call h''.settles_again.1 h''.settles_again.2 hrest
  exact settles_block_cons (h.settles_skip hzero) (settles_block_cons (h.settles_rebind hcall h')
    (settles_block_last (settles_expr hagain)))

end

theorem held_push {g : Guard} (h : g.Held s (.array done)) (hv : g.Held s v) :
    g.Held s (.array (done ++ [v])) := by
  have hmade : Value.MadeOf [.array done, v] (.array (done ++ [v])) := by
    apply Value.madeOf_array
    intro w hw
    rcases List.mem_append.mp hw with hw | hw
    · exact Value.madeOf_item List.mem_cons_self hw
    · rw [List.mem_singleton.mp hw]
      exact Value.madeOf_of_mem (by simp)
  apply held_of_madeOf hmade
  intro w hw
  rcases List.mem_cons.mp hw with rfl | hw
  · exact h
  · rw [List.mem_singleton.mp hw]
    exact hv

/-- The values so far are held where a call of `map` binds them. -/
theorem Inside.add (h : Inside m₀ c home (mapNames arr f iter done) a m) (hv : Given m₀ c m.scopes v) :
    Inside m₀ c home (mapNames arr f iter (done ++ [v])) a
      { m with scopes := m.scopes.set c "res" (.array (done ++ [v])) } := by
  have hnames : m.scopes.bindings c = mapNames arr f iter done := h.frame.state.2
  have hres : ("res", .array done) ∈ m.scopes.bindings c := by simp [hnames, mapNames]
  exact h.set "res" (held_push (h.ordered.held c trivial _ hres) hv.ordered)
    (held_push (h.library.held c trivial _ hres) hv.library)

def iterFunction (identity c : Nat) : Closure := ⟨identity, ["array"], iterBody, c⟩

/-- How an evaluation ends that gives `v` unless it is stopped. -/
def outcomeOf (v : Value) : Option Stop → Outcome Value
  | none => .value v
  | some stop => stop.outcome

theorem closeCall_outcomeOf (site : Site) (line : Int) (v : Value) (stop : Option Stop)
    (m : Machine) : closeCall site line (outcomeOf v stop, m) = (outcomeOf v stop, m) := by
  cases stop with
  | none => rfl
  | some stop => cases stop <;> rfl

theorem settles_iterFunction {r : Outcome Value}
    (h : Settles (fun n => execAll site n iterBody .null
      (m.enter ⟨[("array", .array ys)], some c⟩)) (r, m')) (identity : Nat) (line : Int) :
    Settles (fun n => apply site n (.function (iterFunction identity c)) [.array ys] line m)
      (closeCall site line (r, { m' with current := m.current })) := settles_function rfl h

theorem evaluates_iterBody (site : Site) (identity c : Nat) (ys : List Value) (line : Int)
    (m : Machine) :
    Job.Evaluates ⟨site, .call (.function (iterFunction identity c)) [.array ys] line, m⟩
      ⟨site, .block iterBody .null, m.enter ⟨[("array", .array ys)], some c⟩⟩ :=
  .of_starts fun _ => .body rfl

/-- The inner function calls the function that was given on one item after the other, and adds what
it gives to the results. The job around it is the call of `map`. -/
theorem Iterates.settles_iter {j : Job} {identity : Nat}
    (h : Iterates m₀ c home (mapNames arr f (iterFunction identity c) done) m)
    (hf : Given m₀ c m.scopes f) (hys : ∀ y ∈ ys, Given m₀ c m.scopes y)
    (hzero : ∀ k ≤ ys.length, (Float.ofNat k == 0) = decide (k = 0))
    (hend : ∀ y ∈ ys, ∀ m', j.Evaluates ⟨site, .call f [y] 10, m'⟩ →
      ∃ k, Job.Ends k ⟨site, .call f [y] 10, m'⟩) (line : Int)
    (hj : j.Evaluates ⟨site, .call (.function (iterFunction identity c)) [.array ys] line, m⟩) :
    ∃ vs stop m', Calls j site f 10 c ys m vs stop m' ∧
      Settles (fun n => apply site n (.function (iterFunction identity c)) [.array ys] line m)
        (outcomeOf .null stop, m') ∧ m'.current = m.current ∧
      (stop = none →
        Iterates m₀ c home (mapNames arr f (iterFunction identity c) (done ++ vs)) m') := by
  induction ys generalizing m done line with
  | nil =>
    have hin := h.inside (given_array hys)
    have hquiet := m.quiet_enter c ⟨[("array", .array [])], some c⟩
    have hbody : Settles (fun n => execAll site n iterBody .null _) _ :=
      hin.settles_nil (hzero 0 (Nat.le_refl _))
    have hsettles := settles_iterFunction hbody identity line
    refine ⟨[], none, _, .none ?_, hsettles, rfl, fun _ => ?_⟩
    · exact (hquiet.trans (Machine.quiet_enter c _ _)).trans (Machine.quiet_move c _ _)
    · have hnest : Iterates m₀ c home _ (Machine.nest _) := hin.enter (fun o ho => by
        cases ho
        exact Scopes.lt_of_outer? hin.inner) nofun
      rw [List.append_nil]
      exact ⟨hnest.loaded, hnest.ordered, hnest.library, hnest.frame, hnest.outer⟩
  | cons y ys ih =>
    have harray := given_array hys
    have hin := h.inside harray
    have hquiet := m.quiet_enter c ⟨[("array", .array (y :: ys))], some c⟩
    have hz : (Float.ofNat (ys.length + 1) == 0) = false := hzero _ (Nat.le_refl _)
    have hbody := hj.trans (evaluates_iterBody site identity c (y :: ys) line m)
    have hmade := hbody.trans (hin.evaluates_item hz .null)
    obtain ⟨k, hk⟩ := hend y List.mem_cons_self _ hmade
    rcases settles_of_ends hk with ⟨v, m₂, hcall⟩ | ⟨stop, m₂, hcall⟩
    · obtain ⟨k, hk⟩ := hcall.exists_eq
      obtain ⟨hin₂, hgiven⟩ := h.call_inside harray hf (hys y List.mem_cons_self) hk
      have hadd := hin₂.add (hgiven v rfl)
      have hg : m.scopes.Grows (m₂.scopes.set c "res" (.array (done ++ [v]))) := by
        have hr := ((brackets k).call site f [y] 10).of_eq hk
        exact (hquiet.grows.trans hr.grows).trans (Scopes.grows_set _ _ _ _)
      have hset := m₂.quiet_set c "res" (.array (done ++ [v]))
      obtain ⟨vs, stop, m₄, hcalls, hrest, -, hiter⟩ := ih hadd.toIterates (hf.grows hg)
        (fun x hx => (hys x (List.mem_cons_of_mem _ hx)).grows hg)
        (fun k hk => hzero k (Nat.le_succ_of_le hk))
        (fun x hx => hend x (List.mem_cons_of_mem _ hx)) 11
        (hbody.trans (hin.evaluates_rest hz hcall hin₂ hadd .null))
      have hsettles := settles_iterFunction (hin.settles_cons hz hcall hin₂ hadd hrest) identity line
      rw [closeCall_outcomeOf] at hsettles
      refine ⟨v :: vs, stop, _, ?_, hsettles, rfl, fun hstop => ?_⟩
      · exact .value hquiet hmade hcall ((hcalls.after hset).before (Machine.quiet_move c _ _))
      · have hiter := hiter hstop
        rw [List.append_assoc] at hiter
        exact ⟨hiter.loaded, hiter.ordered, hiter.library, hiter.frame, hiter.outer⟩
    · have hsettles := settles_iterFunction (hin.settles_stop hz hcall) identity line
      refine ⟨[], some stop, _, .stop hquiet hmade hcall (Machine.quiet_move c _ _), ?_, rfl, nofun⟩
      rw [← closeCall_outcomeOf site line]
      exact hsettles

/-! ### The function itself -/

variable {line : Int}

theorem not_rebinds_iterBody {t : Stmt} {x : String} (ht : t ∈ iterBody) (hx : Uses x) :
    ¬ t.Rebinds x := by
  have hiter : Stmt.bind "iter" (.function ["array"] iterBody 6) 6 ∈ mapBody := by simp [mapBody]
  intro hr
  exact not_rebinds_of_uses hiter hx (by simpa using ⟨t, ht, hr⟩)

/-- The state in which a call of `map` begins to iterate. -/
def mapStart (m₀ m : Machine) (arr f : Value) : Machine :=
  { m with
    scopes := ((m.scopes.push ⟨[("arr", arr), ("f", f)], some (m₀.scopes.size + 2)⟩).set
      m.scopes.size "res" (.array [])).set m.scopes.size "iter"
        (.function (iterFunction m.fresh m.scopes.size))
    current := m.scopes.size
    fresh := m.fresh + 1 }

theorem quiet_mapStart (m₀ m : Machine) (arr f : Value) :
    m.Quiet m.scopes.size (mapStart m₀ m arr f) := by
  have hpush := m.scopes.grows_push ⟨[("arr", arr), ("f", f)], some (m₀.scopes.size + 2)⟩
  refine ⟨(hpush.trans (Scopes.grows_set _ _ _ _)).trans (Scopes.grows_set _ _ _ _),
    fun i hi hc => ?_, rfl, rfl, Nat.le_succ _⟩
  simp only [mapStart]
  rw [Scopes.bindings_set_of_ne hc, Scopes.bindings_set_of_ne hc, Scopes.bindings_push_of_lt hi]

/-- The state in which the results of a call of `map` have a name. -/
def mapResults (m₀ m : Machine) (arr f : Value) : Machine :=
  { m with
    scopes := (m.scopes.push ⟨[("arr", arr), ("f", f)], some (m₀.scopes.size + 2)⟩).set
      m.scopes.size "res" (.array [])
    current := m.scopes.size }

section
variable (m₀ m : Machine) (arr f : Value)

theorem settles_res : Settles (fun n => exec site n (.bind "res" (.array [] 5) 5)
    (m.enter ⟨[("arr", arr), ("f", f)], some (m₀.scopes.size + 2)⟩))
    (.value .null, mapResults m₀ m arr f) := by
  have harray (m : Machine) : Settles (fun n => evalExpr site n (.array [] 5) m)
      (.value (.array []), m) := .succ (settles_all_nil.bind (.const _))
  exact settles_bind (harray _)

theorem settles_iterName : Settles (fun n => exec site n (.bind "iter" (.function ["array"] iterBody
    6) 6) (mapResults m₀ m arr f)) (.value .null, mapStart m₀ m arr f) := by
  have hfunction : Settles (fun n => evalExpr site n (.function ["array"] iterBody 6)
      (mapResults m₀ m arr f)) (.value (.function (iterFunction m.fresh m.scopes.size)),
        { mapResults m₀ m arr f with fresh := m.fresh + 1 }) := .of_succ fun _ => rfl
  exact settles_bind hfunction

/-- A call of `map` comes to call its inner function. -/
theorem evaluates_mapStart :
    Job.Evaluates ⟨site, .call (.function (mapFunction m₀)) [arr, f] line, m⟩
      ⟨site, .expr (.call (.ident "iter" 13) [.ident "arr" 13] 13), mapStart m₀ m arr f⟩ := by
  apply Job.Evaluates.trans (.of_starts fun _ => .body rfl)
  apply Job.Evaluates.trans (.of_settles (settles_res m₀ m arr f) fun _ => .next)
  apply Job.Evaluates.trans (.of_settles (settles_iterName m₀ m arr f) fun _ => .next)
  apply Job.Evaluates.trans (.of_starts fun _ => .first)
  exact .of_starts fun _ => .value

end

section
variable (hm₀ : m₀.scopes.Ordered)
  (ho : Guard.ordered.Pre ⟨site, .call (.function (mapFunction m₀)) [arr, f] line, m⟩)
  (hl : (Guard.furrball m₀).Pre ⟨site, .call (.function (mapFunction m₀)) [arr, f] line, m⟩)

include ho hl

theorem given_of_pre (hv : v ∈ [arr, f]) : Given m₀ m.scopes.size m.scopes v :=
  ⟨ho.allowed.2 v hv, hl.allowed.2 v hv,
    hidden_lenient.held ho.inv (Nat.le_refl _) (ho.allowed.2 v hv)⟩

include hm₀

theorem iterates_mapStart : Iterates m₀ m.scopes.size m.current
    (mapNames arr f (iterFunction m.fresh m.scopes.size) []) (mapStart m₀ m arr f) := by
  have hlt : m₀.scopes.size + 2 < m.scopes.size := ho.allowed.1 _ (.refl _) _ rfl
  have hargs {g : Guard} (h : g.HeldAll m.scopes [arr, f]) :
      g.HeldIn m.scopes [("arr", arr), ("f", f)] := by
    intro p hp
    apply h
    simp only [List.mem_cons, List.not_mem_nil, or_false] at hp ⊢
    rcases hp with rfl | rfl
    · exact .inl rfl
    · exact .inr rfl
  have h₁ : Iterates m₀ m.scopes.size m.current [("arr", arr), ("f", f)]
      (m.enter ⟨[("arr", arr), ("f", f)], some (m₀.scopes.size + 2)⟩) := by
    refine ⟨hm₀, ho.inv.push (ho.inv.state.push ?_) (hargs ho.allowed.2),
      hl.inv.push (hl.inv.state.push _) (hargs hl.allowed.2),
      hidden_push ho.inv ⟨[("arr", arr), ("f", f)], some (m₀.scopes.size + 2)⟩,
      Scopes.outer?_push_self _ _⟩
    rintro o ⟨⟩
    exact hlt
  have h₂ := h₁.set "res" (w := .array []) (held_array nofun) (held_array nofun)
  have h₃ := h₂.set "iter" (w := .function (iterFunction m.fresh m.scopes.size))
    (held_function fun g hg => by
      cases hg
      exact h₂.frame.state.1)
    (held_function fun g hg => .inr fun t ht x hx => by
      cases hg
      exact not_rebinds_iterBody ht hx)
  exact ⟨hm₀, ⟨h₃.ordered.state, h₃.ordered.place, h₃.ordered.held⟩,
    ⟨h₃.library.state, h₃.library.place, h₃.library.held⟩,
    ⟨h₃.frame.state, h₃.frame.place, h₃.frame.held⟩, h₃.outer⟩

end

/-- A call of `map` comes to its end with its calls of the function that it is given. -/
theorem settles_map (hm₀ : m₀.scopes.Ordered)
    (ho : Guard.ordered.Pre ⟨site, .call (.function (mapFunction m₀)) [.array xs, f] line, m⟩)
    (hl : (Guard.furrball m₀).Pre
      ⟨site, .call (.function (mapFunction m₀)) [.array xs, f] line, m⟩)
    (hzero : ∀ k ≤ xs.length, (Float.ofNat k == 0) = decide (k = 0))
    (hend : ∀ x ∈ xs, ∀ m', Job.Evaluates
      ⟨site, .call (.function (mapFunction m₀)) [.array xs, f] line, m⟩ ⟨site, .call f [x] 10, m'⟩ →
      ∃ k, Job.Ends k ⟨site, .call f [x] 10, m'⟩) :
    ∃ vs stop m', Calls ⟨site, .call (.function (mapFunction m₀)) [.array xs, f] line, m⟩ site f 10
      m.scopes.size xs m vs stop m' ∧
      Settles (fun n => apply site n (.function (mapFunction m₀)) [.array xs, f] line m)
        (outcomeOf (.array vs) stop, m') := by
  have hstart := quiet_mapStart m₀ m (.array xs) f
  have hiterates := iterates_mapStart hm₀ ho hl
  have harray := given_of_pre ho hl (v := .array xs) (by simp)
  have hitem : ∀ x ∈ xs, Given m₀ m.scopes.size m.scopes x := fun x hx =>
    ⟨fun u hu => harray.ordered u (.item hx hu), fun u hu => harray.library u (.item hx hu),
      fun u hu => harray.frame u (.item hx hu)⟩
  have hnames := hiterates.frame.state.2
  have hiterName : (mapStart m₀ m (.array xs) f).scopes.get? m.scopes.size "iter" =
      some (.function (iterFunction m.fresh m.scopes.size)) := by
    apply Scopes.get?_of_lookup
    rw [hnames]
    rfl
  have harrName : (mapStart m₀ m (.array xs) f).scopes.get? m.scopes.size "arr" =
      some (.array xs) := by
    apply Scopes.get?_of_lookup
    rw [hnames]
    rfl
  have hargs : Settles (fun n => evalAll site n [.ident "arr" 13] (mapStart m₀ m (.array xs) f))
      (.value [.array xs], mapStart m₀ m (.array xs) f) :=
    settles_all_cons (settles_ident harrName) settles_all_nil
  obtain ⟨vs, stop, m₄, hcalls, hiter, hcurrent, hdone⟩ := hiterates.settles_iter
    ((given_of_pre ho hl (by simp)).grows hstart.grows)
    (fun x hx => (hitem x hx).grows hstart.grows) hzero hend 13
    ((evaluates_mapStart m₀ m (.array xs) f).trans (.call (settles_ident hiterName) hargs))
  have hcall : Settles (fun n => exec site n (.expr (.call (.ident "iter" 13) [.ident "arr" 13] 13)
      13) (mapStart m₀ m (.array xs) f)) (outcomeOf .null stop, m₄) :=
    settles_expr (settles_call (settles_ident hiterName) hargs hiter)
  have hmap {r : Outcome Value}
      (hrest : Settles (fun n => execAll site n (mapBody.drop 2) .null
        (mapStart m₀ m (.array xs) f)) (r, m₄)) :
      Settles (fun n => apply site n (.function (mapFunction m₀)) [.array xs, f] line m)
        (closeCall site line (r, { m₄ with current := m.current })) :=
    settles_function rfl (settles_block_cons (settles_res m₀ m (.array xs) f)
      (settles_block_cons (settles_iterName m₀ m (.array xs) f) hrest))
  refine ⟨vs, stop, { m₄ with current := m.current },
    (hcalls.after hstart).before (Machine.quiet_move _ _ _), ?_⟩
  cases stop with
  | none =>
    have hres : m₄.scopes.get? m₄.current "res" = some (.array vs) := by
      have hnames : m₄.scopes.bindings m.scopes.size = _ := (hdone rfl).frame.state.2
      rw [hcurrent]
      apply Scopes.get?_of_lookup
      exact congrArg (List.lookup "res") hnames
    have hback : Settles (fun n => exec site n (.giveBack (some (.ident "res" 14)) 14) m₄)
        (.signal (.returned (.array vs)), m₄) := .succ ((settles_ident hres).bind (.const _))
    exact hmap (settles_block_cons hcall (settles_block_last hback))
  | some stop =>
    rw [← closeCall_outcomeOf site line]
    exact hmap (.succ (Settles.bind_stop hcall))

end

end Library

/-- Every call of the function that an include of the array library names `map`, in the same program
or in a later one of the session, calls the function it is given on one item after the other. It
does nothing else to the scopes that were there or to the world, and it gives the array of the
results, or it is stopped by what stops one of the calls. Of the calls that it makes it is asked that
they come to an end, and of the numbers that those up to the length are zero only if they should
be. -/
theorem map_is_list_map {rest m₀ m₁ m : Machine} {program : Program} {n n₀ n' : Nat}
    {site site₀ site' : Site} {line₀ line : Int} {v map f : Value} {xs : List Value}
    (hrest : rest.Rests)
    (hload : Nested n ⟨site, .program program .null, rest⟩ n₀
      ⟨site₀, .stmt (.load "nya:furrball" line₀), m₀⟩)
    (hdone : exec site₀ n₀ (.load "nya:furrball" line₀) m₀ = (.value v, m₁))
    (hmap : m₁.scopes.get? m₁.current "map" = some map)
    (hcall : Follows n ⟨site, .program program .null, rest⟩ n'
      ⟨site', .call map [.array xs, f] line, m⟩)
    (hzero : ∀ k ≤ xs.length, (Float.ofNat k == 0) = decide (k = 0))
    (hend : ∀ x ∈ xs, ∀ m', Job.Evaluates ⟨site', .call map [.array xs, f] line, m⟩
      ⟨site', .call f [x] 10, m'⟩ → ∃ k, Job.Ends k ⟨site', .call f [x] 10, m'⟩) :
    ∃ vs stop m', Calls ⟨site', .call map [.array xs, f] line, m⟩ site' f 10 m.scopes.size xs m vs
      stop m' ∧
      Settles (fun n => apply site' n map [.array xs, f] line m)
        (outcomeOf (.array vs) stop, m') := by
  have hfree : ordered.Free rest := ⟨hrest.ordered, trivial, fun _ => trivial⟩
  have hm₀ : m₀.scopes.Ordered := ((hfree.pre site program).nested hload).inv.state
  cases n₀ with
  | zero => cases hdone
  | succ n₀ =>
    cases (get?_map_of_load hm₀ hdone).symm.trans hmap
    obtain ⟨ho, hl⟩ := pre_call hrest hload (congrArg Prod.fst hdone) hcall
    exact settles_map hm₀ ho hl hzero hend

/-- A program that maps a function over three arrays which itself maps one over their items: the
items of the first have lengths, and that of the second has none. -/
def nestedMap : Program :=
  [.load "nya:furrball" 1, .expr (.call (.ident "map" 2)
    [.array [.array [.string "ab" 2] 2, .array [.bool true 2] 2, .array [] 2] 2,
      .function ["x"] [.expr (.call (.ident "map" 2) [.ident "x" 2, .ident "length" 2] 2) 2] 2] 2) 2]

namespace nestedMap

def site : Site := ⟨"main", "/"⟩

def start : Machine := .start (.start ⟨[], []⟩ [])

def loaded : Machine := furrballIncluded start

def map : Value := .function (mapFunction start)

def lengths : Value :=
  .function ⟨loaded.fresh, ["x"],
    [.expr (.call (.ident "map" 2) [.ident "x" 2, .ident "length" 2] 2) 2], loaded.current⟩

def arrays : List Value := [.array [.string "ab"], .array [.bool true], .array []]

def call : Job :=
  ⟨site, .call map [.array arrays, lengths] 2, { loaded with fresh := loaded.fresh + 1 }⟩

end nestedMap

/-- The function that is mapped may itself call `map`, and the second of its calls fails. -/
theorem map_is_list_map_until_a_failure :
    Follows 20 ⟨nestedMap.site, .program nestedMap .null, nestedMap.start⟩ 16 nestedMap.call ∧
      nestedMap.call.Ends 60 ∧
      ∃ vs stop m', Calls nestedMap.call nestedMap.site nestedMap.lengths 10
        nestedMap.loaded.scopes.size nestedMap.arrays nestedMap.call.machine vs (some stop) m' ∧
        Settles (fun n => apply nestedMap.site n nestedMap.map
          [.array nestedMap.arrays, nestedMap.lengths] 2 nestedMap.call.machine)
          (stop.outcome, m') := by
  have hrest : nestedMap.start.Rests := .start _
  have hdone : exec nestedMap.site 19 (.load "nya:furrball" 1) nestedMap.start =
      (.value .null, nestedMap.loaded) := exec_load_furrball nestedMap.site 12 1 List.not_mem_nil
  have hmap : nestedMap.loaded.scopes.get? nestedMap.loaded.current "map" = some nestedMap.map :=
    get?_map_of_load hrest.ordered.state hdone
  have hname : evalExpr nestedMap.site 16 (.ident "map" 2) nestedMap.loaded =
      (.value nestedMap.map, nestedMap.loaded) := by
    simp only [evalExpr, Eval.bind_apply, Eval.lookup, hmap]
    rfl
  have hload : Nested 20 ⟨nestedMap.site, .program nestedMap .null, nestedMap.start⟩ 19
      ⟨nestedMap.site, .stmt (.load "nya:furrball" 1), nestedMap.start⟩ :=
    .step .opening (.refl _ _)
  have hcall : Follows 20 ⟨nestedMap.site, .program nestedMap .null, nestedMap.start⟩ 16
      nestedMap.call :=
    .inl (.step (.onward hdone) (.step .opening (.step .value (.step (.call hname rfl)
      (.refl _ _)))))
  -- the call comes to an end, and so do those of the function inside it
  have hends : nestedMap.call.Ends 60 := by decide +kernel
  obtain ⟨vs, stop, m', hcalls, hsettles⟩ := map_is_list_map hrest hload hdone hmap hcall
    (by decide +kernel) fun _ _ _ => hends.evaluates
  cases stop with
  | some stop => exact ⟨hcall, hends, vs, stop, m', hcalls, hsettles⟩
  | none =>
    have hcomes : apply nestedMap.site 60 nestedMap.map [.array nestedMap.arrays, nestedMap.lengths]
        2 nestedMap.call.machine = (.value (.array vs), m') :=
      eq_of_settles (fun n => (suffices_all n).call _ _ _ _) hsettles hends
    have hfails : (apply nestedMap.site 60 nestedMap.map
        [.array nestedMap.arrays, nestedMap.lengths] 2 nestedMap.call.machine).1.isValue = false := by
      decide +kernel
    rw [hcomes] at hfails
    cases hfails

end MeowLang
