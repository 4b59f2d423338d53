import MeowLang.Editor.Symbol
import MeowLang.Proofs.Evaluation.Plan
import MeowLang.Proofs.Evaluation.Resume
import MeowLang.Proofs.Isolation
import MeowLang.Proofs.Program.Equality

/-! What a library exports. Its top level binds names in its own scope and in the layers that its
loads have put over it, and these scopes are the ones it exports. So the names that an editor lists
for the text of a library, with those that its loads bring, are the names that it exports. Blocks
run in scopes of their own, which are never among those. -/
namespace MeowLang

open Guard

/-- The top level of a program executes `s` in the state `m'`, with bound `n'`. -/
inductive Executes (site : Site) : Nat → List Stmt → Machine → Nat → Stmt → Machine → Prop
  | here {n s rest m} : Executes site (n + 1) (s :: rest) m n s m
  | later {n s rest m v m' n' s' m''} (done : exec site n s m = (.value v, m'))
      (there : Executes site n rest m' n' s' m'') : Executes site (n + 1) (s :: rest) m n' s' m''

def GivesBack (site : Site) (n : Nat) (program : List Stmt) (m : Machine) : Prop :=
  ∃ n' s m' v, Executes site n program m n' s m' ∧ (exec site n' s m').1 = .signal (.returned v)

/-- A library that the top level of a program loads exports `x`. -/
def Brings (site : Site) (n : Nat) (program : List Stmt) (m : Machine) (x : String) : Prop :=
  ∃ n' name line m' exports, Executes site n program m (n' + 1) (.load name line) m' ∧
    (load site n' name m').1 = .value exports ∧ x ∈ exports.map Prod.fst

/-- The scopes from the current one up to and including `stop`. -/
def Machine.layers (m : Machine) (stop : Nat) : List Nat :=
  Scopes.upTo stop (m.scopes.chain m.current)

variable {m m' : Machine} {site : Site} {n stop : Nat} {s : Stmt} {x : String} {v : Value}
  {program : List Stmt} {last : Value}

/-! ### Layers -/

theorem Scopes.exists_chain_eq (s : Scopes) (c : Nat) : ∃ rest, s.chain c = c :: rest := by
  rw [chain, chainFrom]
  split <;> exact ⟨_, rfl⟩

theorem Machine.current_mem_layers (m : Machine) (stop : Nat) : m.current ∈ m.layers stop := by
  obtain ⟨rest, hrest⟩ := m.scopes.exists_chain_eq m.current
  rw [layers, hrest, Scopes.upTo]
  split <;> exact List.mem_cons_self

theorem Machine.layers_self (m : Machine) : m.layers m.current = [m.current] := by
  obtain ⟨rest, hrest⟩ := m.scopes.exists_chain_eq m.current
  rw [layers, hrest, Scopes.upTo, if_pos (beq_self_eq_true _)]

theorem Machine.lt_of_mem_layers {i : Nat} (hm : ordered.Inv m) (hi : i ∈ m.layers stop) :
    i < m.scopes.size := by
  have hle := hm.state.le_of_mem_chain (Scopes.mem_of_mem_upTo hi)
  exact Nat.lt_of_le_of_lt hle hm.place

/-- Only a load adds a layer. -/
theorem layers_of_not_isLoad (hm : ordered.Inv m) (hs : s.isLoad = false)
    (h : exec site n s m = (.value v, m')) : m'.layers stop = m.layers stop := by
  have hr : m.Returns (exec site n s m).2 := exec_returns hs
  rw [h] at hr
  rw [Machine.layers, hr.current_eq, Scopes.chain_of_grows hm.state hr.grows hm.place]
  rfl

/-- A load lays a scope over the others, made after all that were needed to load. -/
theorem layers_of_load {name : String} {line : Int} (hm : ordered.Inv m) (hm' : ordered.Inv m')
    (hstop : stop < m.scopes.size) (h : exec site (n + 1) (.load name line) m = (.value v, m')) :
    ∃ exports, (load site n name m).1 = .value exports ∧
      m'.layers stop = m'.current :: m.layers stop ∧ m.scopes.size ≤ m'.current ∧
      m'.scopes.bindings m'.current = exports ∧
      m'.current = (load site n name m).2.scopes.size := by
  obtain ⟨exports, m₁, hload, hlayers⟩ := exec_load_value h
  have hgrows := ((brackets (n + 1)).stmt site (.load name line) m).grows
  rw [h] at hgrows
  have hne : ¬ (m'.current == stop) = true := by
    have hfresh := hlayers.fresh
    simp only [beq_iff_eq]
    omega
  have hchain : m'.scopes.chain m'.current = m'.current :: m.scopes.chain m.current := by
    rw [hm'.state.acyclic.chain_of_outer hlayers.outer,
      Scopes.chain_of_grows hm.state hgrows hm.place]
  refine ⟨exports, by rw [hload], ?_, hlayers.fresh, hlayers.bindings, ?_⟩
  · rw [Machine.layers, hchain, Scopes.upTo, if_neg hne, Machine.layers]
  · simp only [exec, hload] at h
    cases h
    rw [hload]

/-! ### Names -/

theorem exec_rebind_value {e : Expr} {line : Int}
    (h : exec site (n + 1) (.rebind x e line) m = (.value v, m')) :
    ∃ u m₁ i, evalExpr site n e m = (.value u, m₁) ∧
      m₁.scopes.holder? m₁.current x = some i ∧ m'.scopes = m₁.scopes.set i x u := by
  simp only [exec, Eval.bind_apply] at h
  rcases he : evalExpr site n e m with ⟨r, m₁⟩
  rw [he] at h
  cases r with
  | value u =>
    simp only [Eval.rebindName] at h
    rcases hi : m₁.scopes.holder? m₁.current x with _ | i
    · rw [hi] at h
      cases h
    · rw [hi] at h
      cases h
      exact ⟨u, m₁, i, rfl, hi, rfl⟩
  | _ => cases h

/-- A statement adds no name to a scope, but a `set` its own name to the current one. -/
theorem mem_keys_exec {i : Nat} (hs : s.isLoad = false) (h : exec site n s m = (.value v, m'))
    (hi : i < m.scopes.size) : x ∈ (m'.scopes.bindings i).map Prod.fst ↔
      x ∈ (m.scopes.bindings i).map Prod.fst ∨ i = m.current ∧ ∃ e line, s = .bind x e line := by
  cases n with
  | zero => cases h
  | succ n =>
    cases s with
    | expr e line =>
      have he : evalExpr site n e m = (.value v, m') := h
      have hkeys := @keys_evalExpr site n m e i hi
      rw [he] at hkeys
      simp [hkeys]
    | bind y e line =>
      have hgrows := ((brackets n).expr site e m).grows
      have hkeys := @keys_evalExpr site n m e i hi
      rw [exec_bind] at h
      rcases he : evalExpr site n e m with ⟨r, m₁⟩
      rw [he] at h hgrows hkeys
      cases r with
      | value u =>
        cases h
        by_cases hc : i = m.current
        · subst hc
          rw [Scopes.bindings_set_self (Nat.lt_of_lt_of_le hi hgrows.size_le),
            Assoc.mem_keys_insert, hkeys, or_comm]
          simp [eq_comm]
        · rw [Scopes.bindings_set_of_ne hc, hkeys]
          simp [hc]
      | _ => cases h
    | rebind y e line =>
      have hkeys := @keys_evalExpr site n m e i hi
      obtain ⟨u, m₁, j, he, hholder, hscopes⟩ := exec_rebind_value h
      rw [he] at hkeys
      rw [hscopes, Scopes.keys_bindings_set_of_mem (Scopes.mem_keys_of_holder? hholder), hkeys]
      simp
    | giveBack e line =>
      cases e with
      | none => cases h
      | some e =>
        simp only [exec, Eval.bind_apply] at h
        split at h <;> cases h
    | load name line => cases hs
    | leave line => cases h
    | again line => cases h
    | foreign node => cases h

/-- What one statement of the top level adds to the names that are exported. -/
theorem mem_keys_exports_exec (hm : ordered.Inv m) (hm' : ordered.Inv m')
    (hstop : stop < m.scopes.size) (h : exec site n s m = (.value v, m')) :
    x ∈ (m'.scopes.exports m'.current stop).map Prod.fst ↔
      x ∈ (m.scopes.exports m.current stop).map Prod.fst ∨ (∃ e line, s = .bind x e line) ∨
        ∃ n' name line exports, n = n' + 1 ∧ s = .load name line ∧
          (load site n' name m).1 = .value exports ∧ x ∈ exports.map Prod.fst := by
  simp only [Scopes.mem_keys_exports]
  change (∃ i ∈ m'.layers stop, _) ↔ (∃ i ∈ m.layers stop, _) ∨ _
  cases hs : s.isLoad with
  | false =>
    have hkeys (i : Nat) (hi : i ∈ m.layers stop) : x ∈ (m'.scopes.bindings i).map Prod.fst ↔
        x ∈ (m.scopes.bindings i).map Prod.fst ∨ i = m.current ∧ ∃ e line, s = .bind x e line :=
      mem_keys_exec hs h (Machine.lt_of_mem_layers hm hi)
    rw [layers_of_not_isLoad hm hs h]
    constructor
    · rintro ⟨i, hi, hx⟩
      rcases (hkeys i hi).mp hx with hx | ⟨-, hbind⟩
      · exact .inl ⟨i, hi, hx⟩
      · exact .inr (.inl hbind)
    · rintro (⟨i, hi, hx⟩ | hbind | ⟨n', name, line, exports, -, rfl, -⟩)
      · exact ⟨i, hi, (hkeys i hi).mpr (.inl hx)⟩
      · have hc := m.current_mem_layers stop
        exact ⟨m.current, hc, (hkeys _ hc).mpr (.inr ⟨rfl, hbind⟩)⟩
      · cases hs
  | true =>
    cases s with
    | load name line =>
      cases n with
      | zero => cases h
      | succ n =>
        obtain ⟨exports, hload, hlayers, hfresh, hexports, -⟩ := layers_of_load hm hm' hstop h
        have hkept := (apart_exec_load h).1
        have hkeys : ∀ i ∈ m.layers stop, m'.scopes.bindings i = m.scopes.bindings i :=
          fun i hi => hkept.2 i (Machine.lt_of_mem_layers hm hi)
        rw [hlayers, List.exists_mem_cons_iff, hexports]
        constructor
        · rintro (hx | ⟨i, hi, hx⟩)
          · exact .inr (.inr ⟨n, name, line, exports, rfl, rfl, hload, hx⟩)
          · exact .inl ⟨i, hi, hkeys i hi ▸ hx⟩
        · rintro (⟨i, hi, hx⟩ | ⟨e, line', hbind⟩ |
            ⟨n', name', line', exports', hn, hl, hload', hx⟩)
          · exact .inr ⟨i, hi, (hkeys i hi).symm ▸ hx⟩
          · cases hbind
          · cases hn
            cases hl
            cases hload.symm.trans hload'
            exact .inl hx
    | _ => cases hs

/-! ### Programs -/

theorem executes_cons_iff {rest : List Stmt} {n' : Nat} {s' : Stmt} {m'' : Machine}
    (done : exec site n s m = (.value v, m')) :
    Executes site (n + 1) (s :: rest) m n' s' m'' ↔
      n' = n ∧ s' = s ∧ m'' = m ∨ Executes site n rest m' n' s' m'' := by
  constructor
  · intro h
    cases h with
    | here => exact .inl ⟨rfl, rfl, rfl⟩
    | later done' there =>
      cases done.symm.trans done'
      exact .inr there
  · rintro (⟨rfl, rfl, rfl⟩ | there)
    · exact .here
    · exact .later done there

/-- A program that ends with a value, and not at a `return`, has executed all its statements. -/
theorem runProgram_value_cases {rest : List Stmt} {m'' : Machine}
    (h : runProgram site (n + 1) (s :: rest) last m = (.value v, m''))
    (hr : ¬ GivesBack site (n + 1) (s :: rest) m) :
    ∃ u m', exec site n s m = (.value u, m') ∧ runProgram site n rest u m' = (.value v, m'') ∧
      ¬ GivesBack site n rest m' := by
  simp only [runProgram] at h
  rcases hs : exec site n s m with ⟨r, m'⟩
  rw [hs] at h
  cases r with
  | value u =>
    refine ⟨u, m', rfl, h, ?_⟩
    rintro ⟨n', s', m₁, w, hexec, hw⟩
    exact hr ⟨n', s', m₁, w, .later hs hexec, hw⟩
  | signal t =>
    cases t with
    | returned w => exact absurd ⟨n, s, m, w, .here, by rw [hs]⟩ hr
    | failed fault => cases h
    | control c => cases h
  | halted e => cases h
  | exhausted => cases h

theorem size_le_exec (h : exec site n s m = (.value v, m')) : m.scopes.size ≤ m'.scopes.size := by
  have hgrows := ((brackets n).stmt site s m).grows
  rw [h] at hgrows
  exact hgrows.size_le

theorem pre_onward (hp : ordered.Pre ⟨site, .program (s :: program) last, m⟩)
    (done : exec site n s m = (.value v, m')) : ordered.Pre ⟨site, .program program v, m'⟩ :=
  (Starts.onward done).pre_ordered hp

/-- What a program adds to the names that are exported: those of its own `set`s and those that
its loads bring. -/
theorem mem_keys_exports_runProgram (hp : ordered.Pre ⟨site, .program program last, m⟩)
    (hstop : stop < m.scopes.size) (h : runProgram site n program last m = (.value v, m'))
    (hr : ¬ GivesBack site n program m) :
    x ∈ (m'.scopes.exports m'.current stop).map Prod.fst ↔
      x ∈ (m.scopes.exports m.current stop).map Prod.fst ∨
        (∃ e line, .bind x e line ∈ program) ∨ Brings site n program m x := by
  induction n generalizing program last m with
  | zero => cases h
  | succ n ih =>
    cases program with
    | nil =>
      cases h
      constructor
      · exact .inl
      · rintro (hx | ⟨e, line, hbind⟩ | ⟨n', name, line, m₁, exports, hexec, -⟩)
        · exact hx
        · cases hbind
        · cases hexec
    | cons s rest =>
      obtain ⟨u, m₁, hexec, hrest, hr'⟩ := runProgram_value_cases h hr
      have hp' := pre_onward hp hexec
      have hstop' : stop < m₁.scopes.size := Nat.lt_of_lt_of_le hstop (size_le_exec hexec)
      rw [ih hp' hstop' hrest hr', mem_keys_exports_exec hp.inv hp'.inv hstop hexec]
      simp only [Brings, executes_cons_iff hexec]
      constructor
      · rintro ((hx | ⟨e, line, rfl⟩ | ⟨n', name, line, exports, rfl, rfl, hload, hx⟩) |
          ⟨e, line, hmem⟩ | ⟨n', name, line, m₂, exports, hthere, hload, hx⟩)
        · exact .inl hx
        · exact .inr (.inl ⟨e, line, List.mem_cons_self⟩)
        · exact .inr (.inr ⟨n', name, line, m, exports, .inl ⟨rfl, rfl, rfl⟩, hload, hx⟩)
        · exact .inr (.inl ⟨e, line, List.mem_cons_of_mem _ hmem⟩)
        · exact .inr (.inr ⟨n', name, line, m₂, exports, .inr hthere, hload, hx⟩)
      · rintro (hx | ⟨e, line, hmem⟩ |
          ⟨n', name, line, m₂, exports, ⟨rfl, hs, rfl⟩ | hthere, hload, hx⟩)
        · exact .inl (.inl hx)
        · rcases List.mem_cons.mp hmem with rfl | hmem
          · exact .inl (.inr (.inl ⟨e, line, rfl⟩))
          · exact .inr (.inl ⟨e, line, hmem⟩)
        · exact .inl (.inr (.inr ⟨n', name, line, exports, rfl, hs.symm, hload, hx⟩))
        · exact .inr (.inr ⟨n', name, line, m₂, exports, hthere, hload, hx⟩)

/-! ### Blocks -/

/-- The task is the body of a branch, a loop or a function, or what is left of one. -/
def Task.isBlock : Task → Bool
  | .block _ _ => true
  | _ => false

/-- A block runs in a scope that was made for it or laid over that one. -/
theorem Starts.le_current {k : Nat} {j j' : Job} (hs : Starts n j j')
    (hk : k ≤ j.machine.scopes.size) (hj : j.task.isBlock = true → k ≤ j.machine.current)
    (hb : j'.task.isBlock = true) : k ≤ j'.machine.current := by
  cases hs with
  | yes done | no done =>
    -- the test of a branch may have made scopes of its own
    have hr := ((brackets n).expr _ _).of_eq done
    exact Nat.le_trans hk hr.grows.size_le
  | round | body => exact hk
  | @next site s ss last m v m' done =>
    cases hs : s.isLoad with
    | false =>
      have hr : m.Returns (exec site n s m).2 := exec_returns hs
      rw [done] at hr
      exact hr.current_eq ▸ hj rfl
    | true =>
      cases s with
      | load name line =>
        cases n with
        | zero => cases done
        | succ n =>
          obtain ⟨exports, -, -, hlayers⟩ := exec_load_value done
          exact Nat.le_trans hk hlayers.fresh
      | _ => cases hs
  | _ => cases hb

theorem Nested.le_current {k n' : Nat} {j j' : Job} (hn : Nested n j n' j')
    (hk : k ≤ j.machine.scopes.size) (hj : j.task.isBlock = true → k ≤ j.machine.current)
    (hb : j'.task.isBlock = true) : k ≤ j'.machine.current := by
  induction hn with
  | refl => exact hj hb
  | step starts _ ih =>
    exact ih (Nat.le_trans hk starts.size_le) (starts.le_current hk hj) hb

theorem mem_layers_exec {i : Nat} (hm : ordered.Inv m) (hm' : ordered.Inv m')
    (hstop : stop < m.scopes.size) (h : exec site n s m = (.value v, m'))
    (hi : i ∈ m'.layers stop) : i ∈ m.layers stop ∨ m.scopes.size ≤ i := by
  cases hs : s.isLoad with
  | false => exact .inl (layers_of_not_isLoad hm hs h ▸ hi)
  | true =>
    cases s with
    | load name line =>
      cases n with
      | zero => cases h
      | succ n =>
        obtain ⟨-, -, hlayers, hfresh, -, -⟩ := layers_of_load hm hm' hstop h
        rw [hlayers] at hi
        rcases List.mem_cons.mp hi with rfl | hi
        · exact .inr hfresh
        · exact .inl hi
    | _ => cases hs

/-- A statement that has run adds no layer in which one of its blocks was run. -/
theorem current_not_mem_layers_exec {n' : Nat} {j : Job} (hp : ordered.Pre ⟨site, .stmt s, m⟩)
    (hm' : ordered.Inv m') (hstop : stop < m.scopes.size) (h : exec site n s m = (.value v, m'))
    (hn : Nested n ⟨site, .stmt s, m⟩ n' j) (hb : j.task.isBlock = true) :
    j.machine.current ∉ m'.layers stop := by
  intro hi
  have hlow : m.scopes.size ≤ j.machine.current :=
    hn.le_current (Nat.le_refl _) (fun hs => Bool.noConfusion hs) hb
  have hplace : j.machine.current < j.machine.scopes.size := (hp.nested hn).inv.place
  have hold : j.machine.current ∉ m.layers stop := fun hi =>
    Nat.not_lt_of_le hlow (Machine.lt_of_mem_layers hp.inv hi)
  cases hs : s.isLoad with
  | false => exact hold (layers_of_not_isLoad hp.inv hs h ▸ hi)
  | true =>
    cases s with
    | load name line =>
      cases hn with
      | refl => cases hb
      | step starts rest =>
        have hlibrary := starts.pre_ordered hp
        cases starts
        obtain ⟨-, -, hlayers, -, -, hcurrent⟩ := layers_of_load hp.inv hm' hstop h
        -- the blocks of the library were run before the layer was made
        have hle := rest.size_le_final hlibrary
        rw [hlayers] at hi
        rcases List.mem_cons.mp hi with hi | hi
        · rw [hi, hcurrent] at hplace
          exact Nat.not_lt_of_le hle hplace
        · exact hold hi
    | _ => cases hs

theorem mem_layers_runProgram {i : Nat} (hp : ordered.Pre ⟨site, .program program last, m⟩)
    (hstop : stop < m.scopes.size) (h : runProgram site n program last m = (.value v, m'))
    (hr : ¬ GivesBack site n program m) (hi : i ∈ m'.layers stop) :
    i ∈ m.layers stop ∨ m.scopes.size ≤ i := by
  induction n generalizing program last m with
  | zero => cases h
  | succ n ih =>
    cases program with
    | nil =>
      cases h
      exact .inl hi
    | cons s rest =>
      obtain ⟨u, m₁, hexec, hrest, hr'⟩ := runProgram_value_cases h hr
      have hp' := pre_onward hp hexec
      have hsize := size_le_exec hexec
      rcases ih hp' (Nat.lt_of_lt_of_le hstop hsize) hrest hr' with hi | hi
      · exact mem_layers_exec hp.inv hp'.inv hstop hexec hi
      · exact .inr (Nat.le_trans hsize hi)

/-- No layer that a program ends with is a scope that one of its blocks was run in. -/
theorem current_not_mem_layers {n' : Nat} {j : Job}
    (hp : ordered.Pre ⟨site, .program program last, m⟩) (hstop : stop < m.scopes.size)
    (h : runProgram site n program last m = (.value v, m')) (hr : ¬ GivesBack site n program m)
    (hn : Nested n ⟨site, .program program last, m⟩ n' j) (hb : j.task.isBlock = true) :
    j.machine.current ∉ m'.layers stop := by
  induction n generalizing program last m with
  | zero => cases h
  | succ n ih =>
    cases hn with
    | refl => cases hb
    | step starts rest =>
      have hpart := starts.pre_ordered hp
      cases starts with
      | opening =>
        obtain ⟨u, m₁, hexec, hrest, hr'⟩ := runProgram_value_cases h hr
        have hp' := pre_onward hp hexec
        have hsize := size_le_exec hexec
        have hle : j.machine.scopes.size ≤ m₁.scopes.size := by
          have hle := rest.size_le_final hpart
          rwa [Job.final, hexec] at hle
        have hplace : j.machine.current < j.machine.scopes.size := (hpart.nested rest).inv.place
        intro hi
        -- a later layer is younger than all scopes of this statement
        rcases mem_layers_runProgram hp' (Nat.lt_of_lt_of_le hstop hsize) hrest hr' hi with hi | hi
        · exact current_not_mem_layers_exec hpart hp'.inv hstop hexec rest hb hi
        · omega
      | onward done =>
        obtain ⟨u, m₁, hexec, hrest, hr'⟩ := runProgram_value_cases h hr
        cases done.symm.trans hexec
        exact ih hpart (Nat.lt_of_lt_of_le hstop (size_le_exec done)) hrest hr' rest

/-! ### Libraries in files -/

theorem Editor.mem_names_ofProgram {uri : String} {lines : List String} {program : Program} :
    x ∈ (Contents.ofProgram uri lines program).symbols.map Symbol.name ↔
      ∃ e line, .bind x e line ∈ program := by
  simp only [Contents.ofProgram, List.mem_map, List.mem_filterMap]
  constructor
  · rintro ⟨symbol, ⟨t, ht, hsymbol⟩, rfl⟩
    cases t with
    | bind y e line =>
      cases hsymbol
      exact ⟨e, line, ht⟩
    | _ => cases hsymbol
  · rintro ⟨e, line, ht⟩
    exact ⟨_, ⟨_, ht, rfl⟩, rfl⟩

/-- Before a library in a file is run, nothing would be exported. -/
theorem not_mem_keys_beginLibrary {path : String} : x ∉ ((m.beginLibrary path []).scopes.exports
    (m.beginLibrary path []).current (m.addRoots []).1).map Prod.fst := by
  rw [Scopes.mem_keys_exports]
  rintro ⟨i, hi, hx⟩
  have hself := (m.beginLibrary path []).layers_self
  rw [Machine.layers] at hself
  obtain rfl := List.mem_singleton.mp (hself ▸ hi)
  have hempty : (m.beginLibrary path []).scopes.bindings (m.beginLibrary path []).current = [] :=
    Scopes.bindings_push_self _ _
  rw [hempty] at hx
  cases hx

/-- For a library in a file that is read without complaints, whose load succeeds and whose top
level does not stop at a `return`: the names that it exports are those that an editor lists for its
text and those that its own loads bring; and each binding that it exports is one of a scope that no
branch, loop or function of it has run in. -/
theorem exports_are_the_names_in_the_editor {name path source : String}
    {natives : List (String × Export)} {exports : List (String × Value)} (hm : m.Reached)
    (hname : Library.isBuiltIn name = false)
    (hplan : m.plan site name = .run path source natives)
    (hread : Parsed.ofSource source = .ok ⟨program, []⟩)
    (hload : load site (n + 2) name m = (.value exports, m'))
    (hreturn : ¬ GivesBack { site with file := path } n program (m.beginLibrary path [])) :
    let inside : Site := { site with file := path }
    (∀ uri, ∃ contents, Editor.survey uri source = .read contents ∧
      ∀ x, x ∈ exports.map Prod.fst ↔ x ∈ contents.symbols.map Editor.Symbol.name ∨
        Brings inside n program (m.beginLibrary path []) x) ∧
    ∀ p ∈ exports, ∃ i, p ∈ m'.scopes.bindings i ∧
      ∀ n' j, Nested n ⟨inside, .program program .null, m.beginLibrary path []⟩ n' j →
        j.task.isBlock = true → j.machine.current ≠ i := by
  intro inside
  obtain ⟨-, rfl⟩ := Machine.file_of_plan hname hplan
  have hp : ordered.Pre ⟨inside, .program program .null, m.beginLibrary path []⟩ :=
    ⟨hm.inv_ordered.beginLibrary (fun _ hq => nomatch hq), trivial, fun _ _ => trivial,
      held_of_data Value.madeOf_null⟩
  rw [load_succ, hplan] at hload
  obtain ⟨r, hrefuses, heq⟩ | ⟨parsed, r, final, hparsed, -, -, hrun, heq⟩ :=
    runLibrary_cases site n path name source [] m
  · cases heq.symm.trans hload
    cases hrefuses
  · cases hread.symm.trans hparsed
    have hend := heq.symm.trans hload
    cases r with
    | value v =>
      cases hend
      have hstop : (m.addRoots []).1 < (m.beginLibrary path []).scopes.size := hp.inv.place
      refine ⟨fun uri => ⟨_, Editor.survey_of_ofSource hread uri, fun x => ?_⟩, fun p hexport => ?_⟩
      · rw [mem_keys_exports_runProgram hp hstop hrun hreturn, Editor.mem_names_ofProgram]
        simp only [not_mem_keys_beginLibrary, false_or]
      · obtain ⟨i, hi, hb⟩ := Scopes.exists_mem_upTo_of_mem_exports hexport
        refine ⟨i, hb, fun n' j hn hblock hc => ?_⟩
        exact current_not_mem_layers hp hstop hrun hreturn hn hblock (hc ▸ hi)
    | _ => cases hend

/-! ### A library with a load and a branch -/

def branchingLibrary : String := "set x=true;include \"nya:clawtility\";if(true)\x7bset y=true;\x7d"

def branchingProgram : Program :=
  [.bind "x" (.bool true 1) 1, .load "nya:clawtility" 1,
    .expr (.cond (.bool true 1) [.bind "y" (.bool true 1) 1] none 1) 1]

theorem ofSource_branchingLibrary :
    Parsed.ofSource (String.ofList (Text.unifyNewlines branchingLibrary.toList)) =
      .ok ⟨branchingProgram, []⟩ := by
  decide +kernel

def branchingStart : Machine := .start (.start (.ofText branchingLibrary) [])

def branchingBegun : Machine := branchingStart.beginLibrary "/lib.meow" []

def Machine.afterSet (m : Machine) : Machine :=
  { m with scopes := m.scopes.set m.current "x" (.bool true) }

def Machine.afterLoad (m : Machine) : Machine :=
  { m.afterSet.enter ⟨Assoc.insertAll (m.instantiate Library.clawtility.exports).1 [],
      some m.current⟩ with fresh := m.fresh + 3 }

def Machine.afterBranch (m : Machine) : Machine :=
  { m.afterLoad with
    scopes := m.afterLoad.nest.scopes.set m.afterLoad.scopes.size "y" (.bool true) }

theorem exec_branchingProgram (m : Machine) :
    exec site (n + 3) (.bind "x" (.bool true 1) 1) m = (.value .null, m.afterSet) ∧
    exec site (n + 3) (.load "nya:clawtility" 1) m.afterSet = (.value .null, m.afterLoad) ∧
    exec site (n + 6) (.expr (.cond (.bool true 1) [.bind "y" (.bool true 1) 1] none 1) 1)
      m.afterLoad = (.value .null, m.afterBranch) := by
  refine ⟨rfl, ?_, rfl⟩
  simp only [exec, load_succ, Library.plan_clawtility]
  rfl

theorem runProgram_branchingProgram (m : Machine) :
    runProgram site (n + 9) branchingProgram .null m = (.value .null, m.afterBranch) ∧
      ¬ GivesBack site (n + 9) branchingProgram m := by
  obtain ⟨hset, -, -⟩ := @exec_branchingProgram site (n + 5) m
  obtain ⟨-, hload, -⟩ := @exec_branchingProgram site (n + 4) m
  obtain ⟨-, -, hbranch⟩ := @exec_branchingProgram site n m
  constructor
  · simp only [branchingProgram, runProgram, hset, hload, hbranch]
    rfl
  · rintro ⟨n', s, m', v, hexec, hv⟩
    rw [branchingProgram, executes_cons_iff hset, executes_cons_iff hload,
      executes_cons_iff hbranch] at hexec
    rcases hexec with ⟨rfl, rfl, rfl⟩ | ⟨rfl, rfl, rfl⟩ | ⟨rfl, rfl, rfl⟩ | hexec
    · rw [hset] at hv
      cases hv
    · rw [hload] at hv
      cases hv
    · rw [hbranch] at hv
      cases hv
    · cases hexec

/-- The name that is set in the branch is not exported, and those that are loaded are. -/
theorem exports_are_the_names_in_the_editor_beside_a_branch :
    let inside : Site := ⟨"/lib.meow", "/"⟩
    let source := String.ofList (Text.unifyNewlines branchingLibrary.toList)
    ¬ GivesBack inside 9 branchingProgram branchingBegun ∧
      ∃ exports, (load ⟨"main", "/"⟩ 11 "lib" branchingStart).1 = .value exports ∧
        exports.map Prod.fst = ["x", "length", "kibble", "nap"] ∧
        ∃ contents, Editor.survey "file:///lib.meow" source = .read contents ∧
          ∀ x, x ∈ exports.map Prod.fst ↔ x ∈ contents.symbols.map Editor.Symbol.name ∨
            Brings inside 9 branchingProgram branchingBegun x := by
  intro inside source
  have hname : Library.isBuiltIn "lib" = false := by decide
  have hplan := Machine.plan_ofText (m := branchingStart) "main" rfl rfl
  obtain ⟨hrun, hreturn⟩ := @runProgram_branchingProgram inside 0 branchingBegun
  have hload : load ⟨"main", "/"⟩ 11 "lib" branchingStart =
      (.value (branchingBegun.afterBranch.scopes.exports branchingBegun.afterBranch.current
        branchingBegun.current),
        branchingBegun.afterBranch.endLibrary branchingStart "/lib.meow") := by
    have hlib := runLibrary_of_clean (m := branchingStart) ⟨"main", "/"⟩ 9 "lib" []
      ofSource_branchingLibrary rfl (List.not_mem_nil : "/lib.meow" ∉ _)
    rw [load_succ, hplan]
    refine hlib.trans ?_
    dsimp only
    rw [show runProgram _ 9 branchingProgram .null (branchingStart.beginLibrary "/lib.meow" []) = _
      from hrun]
    rfl
  obtain ⟨hnames, -⟩ := exports_are_the_names_in_the_editor (Machine.Rests.start _).reached hname
    hplan ofSource_branchingLibrary hload hreturn
  exact ⟨hreturn, _, congrArg Prod.fst hload, by decide, hnames "file:///lib.meow"⟩

end MeowLang
