import MeowLang.Proofs.Evaluation.Bracket

/-! The discipline of scopes and loads. Only a load that succeeds moves to another scope, to
one that it has just made over the old one and that binds exactly what the library exports; so
a program ends as many layers above its first scope as it has loads that succeed. -/
namespace MeowLang

variable {m m' : Machine}

/-! ### What libraries export -/

theorem Library.keys_instantiate (identity : Nat) (exports : List (String × Export)) :
    (Library.instantiate identity exports).map Prod.fst = exports.map Prod.fst := by
  induction exports generalizing identity with
  | nil => rfl
  | cons e rest ih =>
    obtain ⟨name, f | x⟩ := e <;> simp [Library.instantiate, ih]

theorem Library.nodup_keys_exports : ∀ l ∈ Library.all, (l.exports.map Prod.fst).Nodup := by
  decide

theorem Library.mem_all_of_find? {name : String} {library : Library}
    (h : Library.find? name = some library) : library ∈ Library.all := by
  unfold Library.find? at h
  split at h
  · exact List.mem_of_find?_eq_some h
  · cases h

theorem Machine.plan_hand {site : Site} {name : String} {exports : List (String × Export)}
    (h : m.plan site name = .hand exports) : ∃ l ∈ Library.all, l.exports = exports := by
  unfold Machine.plan at h
  split at h
  · cases found : Library.find? name with
    | none => simp [found] at h
    | some library =>
      cases hs : library.source with
      | none =>
        simp only [found, hs, LoadPlan.hand.injEq] at h
        exact ⟨library, Library.mem_all_of_find? found, h⟩
      | some source => simp [found, hs] at h
  · dsimp only at h
    split at h
    · cases h
    split at h
    · cases h
    · split at h <;> cases h

/-- No name is exported twice. -/
theorem nodup_keys_load {site : Site} {n : Nat} {name : String} {exports : List (String × Value)}
    (h : load site n name m = (.value exports, m')) : (exports.map Prod.fst).Nodup := by
  have text : ∀ {n key source natives m}, runLibrary site n key name source natives m =
      (.value exports, m') → (exports.map Prod.fst).Nodup := by
    intro n key source natives m hr
    cases n with
    | zero => cases hr
    | succ n =>
      obtain ⟨r, hrefuses, heq⟩ | ⟨parsed, r, m₁, -, -, -, hrun, heq⟩ :=
        runLibrary_cases site n key name source natives m
      · rw [hr] at heq
        cases heq
        cases hrefuses
      · rw [hr] at heq
        cases r with
        | value v =>
          cases heq
          exact Scopes.nodup_keys_exports _ _ _
        | _ => cases heq
  cases n with
  | zero => cases h
  | succ n =>
    rw [load_succ] at h
    cases hp : m.plan site name with
    | fault cause => rw [hp] at h; cases h
    | halt e => rw [hp] at h; cases h
    | hand exports =>
      rw [hp] at h
      cases h
      obtain ⟨l, hl, rfl⟩ := Machine.plan_hand hp
      rw [Machine.instantiate, Library.keys_instantiate]
      exact Library.nodup_keys_exports l hl
    | run key source exports =>
      rw [hp] at h
      exact text h

/-! ### Statements -/

def Stmt.isLoad : Stmt → Bool
  | .load _ _ => true
  | _ => false

def Outcome.isValue {α : Type} : Outcome α → Bool
  | .value _ => true
  | _ => false

/-- From `m`, one scope was laid over the current one, as the last that was made, and the
machine stays in it; it binds the exports and nothing else. -/
structure Machine.Layers (m : Machine) (exports : List (String × Value)) (m' : Machine) : Prop where
  fresh : m.scopes.size ≤ m'.current
  newest : m'.scopes.size = m'.current + 1
  outer : m'.scopes.outer? m'.current = some m.current
  bindings : m'.scopes.bindings m'.current = exports

theorem exec_load_value {site : Site} {n : Nat} {name : String} {line : Int} {v : Value}
    (h : exec site (n + 1) (.load name line) m = (.value v, m')) :
    ∃ exports m₁, load site n name m = (.value exports, m₁) ∧ m.Layers exports m' := by
  have hb := (brackets n).library site name m
  simp only [exec] at h
  split at h <;> rename_i heq
  · rename_i exports m₁
    rw [heq] at hb
    cases h
    refine ⟨exports, m₁, heq, hb.grows.size_le, Scopes.size_push _ _, ?_, ?_⟩
    · rw [← hb.current_eq]
      exact Scopes.outer?_push_self _ _
    · exact (Scopes.bindings_push_self _ _).trans (Assoc.insertAll_nil (nodup_keys_load heq))
  all_goals cases h

/-- A load that does not succeed returns. -/
theorem exec_load_returns {site : Site} {n : Nat} {name : String} {line : Int}
    (h : (exec site n (.load name line) m).1.isValue = false) :
    m.Returns (exec site n (.load name line) m).2 := by
  cases n with
  | zero => exact .refl m
  | succ n =>
    have hb := (brackets n).library site name m
    simp only [exec] at h ⊢
    split <;> rename_i heq <;> rw [heq] at hb
    · rw [heq] at h
      cases h
    all_goals exact hb

theorem exec_returns {site : Site} {n : Nat} {s : Stmt} (h : s.isLoad = false) :
    m.Returns (exec site n s m).2 := by
  cases n with
  | zero => exact .refl m
  | succ n =>
    refine (brackets n).stmt_returns site s ?_ m
    rintro name line rfl
    cases h

/-! ### Programs -/

/-- Scope `c` is `old` under `k` layers, all of them made after the first `size` scopes. -/
inductive Scopes.Layered (s : Scopes) (size old : Nat) : Nat → Nat → Prop
  | bare : Layered s size old 0 old
  | layer {k c d : Nat} (below : Layered s size old k c) (outer : s.outer? d = some c)
      (fresh : size ≤ d) (made : d < s.size) : Layered s size old (k + 1) d

theorem Scopes.Layered.mono {s s' : Scopes} {size old k c : Nat} (h : s.Layered size old k c)
    (hg : s.Grows s') : s'.Layered size old k c := by
  induction h with
  | bare => exact .bare
  | layer below outer fresh made ih =>
    exact .layer ih ((hg.outer_eq _ made).trans outer) fresh (Nat.lt_of_lt_of_le made hg.size_le)

theorem Scopes.Layered.trans {s : Scopes} {size size' a b c j k : Nat}
    (h : s.Layered size a j b) (h' : s.Layered size' b k c) (hs : size ≤ size') :
    s.Layered size a (j + k) c := by
  induction h' with
  | bare => exact h
  | layer below outer fresh made ih => exact .layer ih outer (Nat.le_trans hs fresh) made

/-- How many statements of a program are loads that succeed when it is run. -/
def loadsDone (site : Site) : Nat → List Stmt → Machine → Nat
  | 0, _, _ => 0
  | _ + 1, [], _ => 0
  | n + 1, s :: rest, m =>
    match exec site n s m with
    | (.value _, m) => (if s.isLoad then 1 else 0) + loadsDone site n rest m
    | _ => 0

/-- One statement that gives a value is one layer if it is a load, and none otherwise. -/
theorem layered_exec {site : Site} {n : Nat} {s : Stmt} {v : Value}
    (h : exec site n s m = (.value v, m')) :
    m'.scopes.Layered m.scopes.size m.current (if s.isLoad then 1 else 0) m'.current := by
  cases hs : s.isLoad with
  | false =>
    have hr : m.Returns (exec site n s m).2 := exec_returns hs
    rw [h] at hr
    rw [← hr.current_eq]
    exact .bare
  | true =>
    cases s with
    | load name line =>
      cases n with
      | zero => cases h
      | succ n =>
        obtain ⟨exports, -, -, hl⟩ := exec_load_value h
        exact .layer .bare hl.outer hl.fresh (by have := hl.newest; omega)
    | _ => cases hs

theorem layered_runProgram (site : Site) (n : Nat) (program : List Stmt) (last : Value)
    (m : Machine) :
    (runProgram site n program last m).2.scopes.Layered m.scopes.size m.current
      (loadsDone site n program m) (runProgram site n program last m).2.current := by
  induction n generalizing program last m with
  | zero => exact .bare
  | succ n ih =>
    cases program with
    | nil => exact .bare
    | cons s rest =>
      have hk := (brackets n).stmt site s m
      have stopped : (exec site n s m).1.isValue = false →
          m.Returns (exec site n s m).2 := by
        intro hv
        cases hs : s.isLoad with
        | false => exact exec_returns hs
        | true =>
          cases s with
          | load name line => exact exec_load_returns hv
          | _ => cases hs
      simp only [runProgram, loadsDone]
      rcases hx : exec site n s m with ⟨r, m₁⟩
      rw [hx] at hk stopped
      cases r with
      | value v =>
        have hr := (brackets n).program site rest v m₁
        exact ((layered_exec hx).mono hr.grows).trans (ih rest v m₁) hk.grows.size_le
      | signal s =>
        have hc := (stopped rfl).current_eq
        cases s <;> (dsimp only [Eval.fail, Eval.signal]; rw [← hc]; exact .bare)
      | halted e => dsimp only; rw [← (stopped rfl).current_eq]; exact .bare
      | exhausted => dsimp only; rw [← (stopped rfl).current_eq]; exact .bare

/-- Expressions give back the current scope and the libraries being loaded, whatever their
outcome. A statement does, too, but that a load which succeeds stays in the layer it makes; so a
program ends under as many new layers as it has loads that succeed. -/
theorem scopes_and_loads_are_bracketed (site : Site) (n : Nat) (m : Machine) :
    (∀ e, (evalExpr site n e m).2.current = m.current ∧
      (evalExpr site n e m).2.loading = m.loading) ∧
    (∀ s, (exec site n s m).2.loading = m.loading ∧
      if s.isLoad && (exec site n s m).1.isValue then
        ∃ name line k exports m₁, s = .load name line ∧ n = k + 1 ∧
          load site k name m = (.value exports, m₁) ∧ m.Layers exports (exec site n s m).2
      else (exec site n s m).2.current = m.current) ∧
    ∀ program last, (runProgram site n program last m).2.loading = m.loading ∧
      (runProgram site n program last m).2.scopes.Layered m.scopes.size m.current
        (loadsDone site n program m) (runProgram site n program last m).2.current := by
  refine ⟨fun e => ?_, fun s => ⟨((brackets n).stmt site s m).loading_eq, ?_⟩,
    fun program last => ?_⟩
  · have h := (brackets n).expr site e m
    exact ⟨h.current_eq, h.loading_eq⟩
  · cases hs : s.isLoad with
    | false => simpa using (exec_returns hs).current_eq
    | true =>
      cases s with
      | load name line =>
        cases hv : (exec site n (.load name line) m).1.isValue with
        | false => simpa [hv] using (exec_load_returns hv).current_eq
        | true =>
          cases n with
          | zero => cases hv
          | succ n =>
            rcases hx : exec site (n + 1) (.load name line) m with ⟨r, m'⟩
            rw [hx] at hv
            cases r with
            | value v =>
              obtain ⟨exports, m₁, hl, hlayers⟩ := exec_load_value hx
              exact ⟨name, line, n, exports, m₁, rfl, rfl, hl, hlayers⟩
            | _ => cases hv
      | _ => cases hs
  · exact ⟨((brackets n).program site program last m).loading_eq,
      layered_runProgram site n program last m⟩

end MeowLang
