import MeowLang.Proofs.Evaluation.Guard

/-! Every evaluation keeps every guard. A job may begin if the guard holds and allows its code
and its values, and if it lets the texts run that are loaded in the course of the job; then every
job that it starts may begin, and the guard holds when it ends. -/
namespace MeowLang

open Eval

def Job.Loads (n : Nat) (j : Job) (source : String) : Prop :=
  ∃ n' site key name natives m, Nested n j n' ⟨site, .text key name source natives, m⟩ ∧
    key ∉ m.loading

theorem Job.Loads.step {n : Nat} {j j' : Job} {source : String} (hs : Starts n j j')
    (h : j'.Loads n source) : j.Loads (n + 1) source := by
  obtain ⟨n', site, key, name, natives, m, hn, hkey⟩ := h
  exact ⟨n', site, key, name, natives, m, .step hs hn, hkey⟩

/-- A job that is no text loads what the jobs load that it starts. -/
theorem Job.Loads.starts {n : Nat} {j : Job} {source : String} (h : j.Loads n source)
    (hj : ∀ key name natives, j.task ≠ .text key name source natives) :
    ∃ k j', n = k + 1 ∧ Starts k j j' ∧ j'.Loads k source := by
  obtain ⟨n', site, key, name, natives, m, hn, hkey⟩ := h
  cases hn with
  | refl => exact absurd rfl (hj key name natives)
  | step hs hn => exact ⟨_, _, rfl, hs, n', site, key, name, natives, m, hn, hkey⟩

namespace Guard

variable (g : Guard)

/-- The code of a task may run in a state, and its values may be held there. -/
def Allowed (m : Machine) : Task → Prop
  | .expr e => g.expr m.scopes m.current e
  | .all es => ∀ e ∈ es, g.expr m.scopes m.current e
  | .entries _ es done =>
    (∀ p ∈ es, g.expr m.scopes m.current p.1 ∧ g.expr m.scopes m.current p.2) ∧
      g.HeldIn m.scopes done
  | .loop body => ∀ t ∈ body, g.stmt m.scopes m.current t
  | .call f args _ => g.Held m.scopes f ∧ g.HeldAll m.scopes args
  | .block ss last | .program ss last =>
    g.own m.current ∧ (∀ t ∈ ss, g.stmt m.scopes m.current t) ∧ g.Held m.scopes last
  | .stmt t => g.own m.current ∧ g.stmt m.scopes m.current t
  | .library _ => True
  | .text _ _ _ natives => g.HeldIn m.scopes natives

structure Pre (j : Job) : Prop where
  inv : g.Inv j.machine
  allowed : g.Allowed j.machine j.task

/-- A job may begin with bound `n`. -/
structure Ready (n : Nat) (j : Job) : Prop extends g.Pre j where
  texts : ∀ source, j.Loads n source → g.Admits source

/-- What is known after jobs with bound `n`, if `P` is known before them. -/
structure Guarded (P : Job → Prop) (n : Nat) : Prop where
  expr : ∀ site e m, P ⟨site, .expr e, m⟩ → g.Post g.Held m (evalExpr site n e m)
  all : ∀ site es m, P ⟨site, .all es, m⟩ → g.Post g.HeldAll m (evalAll site n es m)
  entries : ∀ site line es done m, P ⟨site, .entries line es done, m⟩ →
    g.Post g.HeldIn m (evalEntries site n line es done m)
  loop : ∀ site body m, P ⟨site, .loop body, m⟩ → g.Post g.Held m (repeatLoop site n body m)
  call : ∀ site f args line m, P ⟨site, .call f args line, m⟩ →
    g.Post g.Held m (apply site n f args line m)
  block : ∀ site ss last m, P ⟨site, .block ss last, m⟩ →
    g.Post g.Held m (execAll site n ss last m)
  stmt : ∀ site t m, P ⟨site, .stmt t, m⟩ → g.Post g.Held m (exec site n t m)
  library : ∀ site name m, P ⟨site, .library name, m⟩ → g.Post g.HeldIn m (load site n name m)
  text : ∀ site key name source natives m, P ⟨site, .text key name source natives, m⟩ →
    g.Post g.HeldIn m (runLibrary site n key name source natives m)
  program : ∀ site ss last m, P ⟨site, .program ss last, m⟩ →
    g.Post g.Held m (runProgram site n ss last m)

variable {g} {n : Nat} {m m' : Machine}

/-! ### What a job starts -/

theorem Inv.beginLibrary {key : String} {natives : List (String × Value)} (h : g.Inv m)
    (hn : g.HeldIn m.scopes natives) : g.Inv (m.beginLibrary key natives) := by
  have roots : g.Inv (m.enter ⟨Library.instantiate m.fresh Library.prelude, none⟩) :=
    h.enter (fun _ ho => nomatch ho) (fun _ => ⟨m.fresh, rfl⟩) (heldIn_instantiate _ _)
  have names : g.Inv ((m.enter ⟨Library.instantiate m.fresh Library.prelude, none⟩).enter
      ⟨Assoc.insertAll natives [], some m.scopes.size⟩) :=
    roots.enter_inside rfl (heldIn_insertAll (hn.grows (m.scopes.grows_push _)))
  exact ⟨names.state, names.place, names.held⟩

theorem Inv.instantiate (h : g.Inv m) (exports : List (String × Export)) :
    g.Inv (m.instantiate exports).2 := ⟨h.state, h.place, h.held⟩

/-! ### What follows the parts of a job -/

section
variable {site : Site}

theorem post_array {items : List Expr} (h : g.Post g.HeldAll m (evalAll site n items m))
    (line : Int) : g.Post g.Held m (evalExpr site (n + 1) (.array items line) m) :=
  post_bind h fun _ _ _ hi hvs => post_pure hi (held_array hvs)

theorem post_object {entries : List (Expr × Expr)} {line : Int}
    (h : g.Post g.HeldIn m (evalEntries site n line entries [] m)) :
    g.Post g.Held m (evalExpr site (n + 1) (.object entries line) m) :=
  post_bind h fun _ _ _ hi hes => post_pure hi (held_map hes)

theorem post_prefixed {e : Expr} (h : g.Post g.Held m (evalExpr site n e m)) (op : Op)
    (line : Int) : g.Post g.Held m (evalExpr site (n + 1) (.prefixed op e line) m) :=
  post_bind h fun _ _ _ hi _ =>
    post_ofExcept hi site line fun _ hw => held_of_data (Value.madeOf_unary hw)

theorem post_right {r : Expr} (h : g.Post g.Held m (evalExpr site n r m)) (op : Op) (v : Value)
    (line : Int) :
    g.Post g.Held m ((evalExpr site n r >>= fun w => ofExcept site line (v.binary op w)) m) :=
  post_bind h fun _ _ _ hi _ =>
    post_ofExcept hi site line fun _ hu => held_of_data (Value.madeOf_binary hu)

theorem post_nested {b : List Stmt} (hm : g.place m.scopes m.current)
    (h : g.Post g.Held m.nest (execAll site n b .null m.nest)) :
    g.Post g.Held m (nested (execAll site n b .null) m) :=
  post_within hm ((brackets n).block site b .null) h

theorem post_index {v : Value} {i : Expr} (hv : g.Held m.scopes v)
    (h : g.Post g.Held m (evalExpr site n i m)) (line : Int) :
    g.Post g.Held m ((evalExpr site n i >>= fun w => ofExcept site line (v.index w)) m) := by
  refine post_bind h fun w m' done hi _ => post_ofExcept hi site line fun u hu => ?_
  have hr : m.Returns m' := ((brackets n).expr site i).of_eq done
  refine held_of_madeOf (Value.madeOf_index hu) fun c hc => ?_
  rw [List.mem_singleton.mp hc]
  exact hv.grows hr.grows

theorem post_cons {v : Value} {es : List Expr} (hv : g.Held m.scopes v)
    (h : g.Post g.HeldAll m (evalAll site n es m)) :
    g.Post g.HeldAll m ((evalAll site n es >>= fun vs => pure (v :: vs)) m) := by
  refine post_bind h fun vs m' done hi hvs => post_pure hi fun w hw => ?_
  have hr : m.Returns m' := ((brackets n).all site es).of_eq done
  rcases List.mem_cons.mp hw with rfl | hw
  · exact hv.grows hr.grows
  · exact hvs w hw

theorem post_kindOf {e : Expr} (h : g.Post g.Held m (evalExpr site n e m)) (line : Int) :
    g.Post g.Held m (evalExpr site (n + 1) (.kindOf e line) m) := by
  simp only [evalExpr]
  split
  · rename_i heq
    rw [heq] at h
    exact ⟨h.inv, h.onward, held_of_data (Value.madeOf_string _)⟩
  · rename_i heq
    rw [heq] at h
    exact ⟨h.inv, h.onward, held_of_data (Value.madeOf_string _)⟩
  · exact h

theorem post_loop {body : List Stmt} (h : g.Post g.Held m (nested (execAll site n body .null) m))
    (again : ∀ {r m'}, nested (execAll site n body .null) m = (r, m') →
      ((∃ v, r = .value v) ∨ r = .signal (.control .again)) →
      g.Post g.Held m' (repeatLoop site n body m')) :
    g.Post g.Held m (repeatLoop site (n + 1) body m) := by
  have goesOn : ∀ {r m'}, nested (execAll site n body .null) m = (r, m') →
      ((∃ v, r = .value v) ∨ r = .signal (.control .again)) →
      g.Post g.Held m (repeatLoop site n body m') := by
    intro r m' done hr
    have hrest := again done hr
    rw [done] at h
    exact ⟨hrest.inv, h.onward.trans hrest.onward, hrest.fine⟩
  simp only [repeatLoop]
  split
  · rename_i heq
    exact goesOn heq (.inl ⟨_, rfl⟩)
  · rename_i heq
    exact goesOn heq (.inr rfl)
  · rename_i heq
    rw [heq] at h
    exact ⟨h.inv, h.onward, held_of_data Value.madeOf_null⟩
  · exact h

theorem post_call {f : Closure} {args : List Value} (arity : args.length = f.params.length)
    (h : g.Post g.Held m (within ⟨Assoc.insertAll (f.params.zip args) [], some f.scope⟩
      (execAll site n f.body .null) m)) (line : Int) :
    g.Post g.Held m (apply site (n + 1) (.function f) args line m) := by
  rw [apply_function_of_eq site n f args line m arity]
  split
  · rename_i heq
    rw [heq] at h
    exact ⟨h.inv, h.onward, h.fine⟩
  · rename_i heq
    rw [heq] at h
    exact ⟨h.inv, h.onward, trivial⟩
  · exact h

/-- A statement after its expression, which has not moved to another scope. -/
theorem stmt_after {e : Expr} {t : Stmt} {v : Value} (done : evalExpr site n e m = (.value v, m'))
    (hown : g.own m.current) (ht : g.stmt m.scopes m.current t) :
    g.stmt m'.scopes m'.current t ∧ g.own m'.current := by
  have hr : m.Returns m' := ((brackets n).expr site e).of_eq done
  exact ⟨(onward_of_returns hr).stmt t ht, (onward_of_returns hr).own hown⟩

theorem post_bound {x : String} {e : Expr} {line : Int}
    (h : g.Post g.Held m (evalExpr site n e m)) (hown : g.own m.current)
    (ht : g.stmt m.scopes m.current (.bind x e line)) :
    g.Post g.Held m (exec site (n + 1) (.bind x e line) m) := by
  refine post_bind h fun v m' done hi hv => ?_
  obtain ⟨ht', hown'⟩ := stmt_after done hown ht
  have hset := g.state_bind (v := v) hi.state hown' ht'
  have hb : g.Post (fun _ _ => True) m' (bindName x v m') :=
    ⟨hi.set hset hv, onward_of_returns (returns_bindName x v m'), trivial⟩
  exact post_bind hb fun _ m'' _ hi' _ => post_pure hi' (held_of_data Value.madeOf_null)

theorem post_rebound {x : String} {e : Expr} {line : Int}
    (h : g.Post g.Held m (evalExpr site n e m)) (hown : g.own m.current)
    (ht : g.stmt m.scopes m.current (.rebind x e line)) :
    g.Post g.Held m (exec site (n + 1) (.rebind x e line) m) := by
  refine post_bind h fun v m' done hi hv => ?_
  obtain ⟨ht', -⟩ := stmt_after done hown ht
  have hb : g.Post (fun _ _ => True) m' (rebindName x v m') := by
    refine ⟨?_, onward_of_returns (returns_rebindName x v m'), ?_⟩
    all_goals simp only [rebindName]; split
    · rename_i i hx
      exact hi.set (g.state_rebind hi.state ht' hx) hv
    · exact hi
    all_goals trivial
  refine post_bind hb fun found m'' _ hi' _ => ?_
  split
  · exact post_pure hi' (held_of_data Value.madeOf_null)
  · exact post_fail hi' site line _

theorem post_given {e : Expr} (h : g.Post g.Held m (evalExpr site n e m)) (line : Int) :
    g.Post g.Held m (exec site (n + 1) (.giveBack (some e) line) m) :=
  post_bind h fun _ _ _ hi hv => post_here hi hv rfl rfl

theorem post_loaded {name : String} (h : g.Post g.HeldIn m (load site n name m)) (line : Int) :
    g.Post g.Held m (exec site (n + 1) (.load name line) m) := by
  simp only [exec]
  split <;> rename_i heq <;> rw [heq] at h
  · have hb := post_bind (K := g.Held) (post_layer h.inv h.fine) fun _ m'' _ hi _ =>
      post_pure hi (held_of_data Value.madeOf_null)
    exact ⟨hb.inv, h.onward.trans hb.onward, hb.fine⟩
  · exact ⟨h.inv, h.onward, trivial⟩
  · rename_i s _ _
    refine ⟨h.inv, h.onward, ?_⟩
    cases s <;> exact h.fine
  · exact ⟨h.inv, h.onward, trivial⟩
  · exact ⟨h.inv, h.onward, trivial⟩

theorem post_text {key name source : String} {natives : List (String × Value)} {parsed : Parsed}
    (hm : g.place m.scopes m.current) (read : Parsed.ofSource source = .ok parsed)
    (clean : parsed.errors = []) (unused : key ∉ m.loading)
    (h : g.Post g.Held (m.beginLibrary key natives) (runProgram { site with file := key } n
      parsed.program .null (m.beginLibrary key natives))) :
    g.Post g.HeldIn m (runLibrary site (n + 1) key name source natives m) := by
  have hret := (brackets (n + 1)).body site key name source natives m
  rw [runLibrary_of_clean site n name natives read clean unused] at hret ⊢
  cases hrun : runProgram { site with file := key } n parsed.program .null
      (m.beginLibrary key natives) with
  | mk r m' =>
    rw [hrun] at h hret
    refine ⟨h.inv.back hm hret.grows _, onward_of_returns hret, ?_⟩
    cases r with
    | value v => exact h.inv.held_exports
    | signal s => cases s <;> exact h.fine
    | halted h => trivial
    | exhausted => trivial

theorem post_program {t : Stmt} {ts : List Stmt} {last : Value}
    (h : g.Post g.Held m (exec site n t m))
    (rest : ∀ v m', exec site n t m = (.value v, m') →
      g.Post g.Held m' (runProgram site n ts v m')) :
    g.Post g.Held m (runProgram site (n + 1) (t :: ts) last m) := by
  simp only [runProgram]
  split
  · rename_i v m' heq
    have hrest := rest v m' heq
    rw [heq] at h
    exact ⟨hrest.inv, h.onward.trans hrest.onward, hrest.fine⟩
  · rename_i heq
    rw [heq] at h
    exact ⟨h.inv, h.onward, h.fine⟩
  · rename_i heq
    rw [heq] at h
    exact ⟨h.inv, h.onward, trivial⟩
  · exact h

end

namespace Guarded

/-- An expression after others in the same scope. -/
theorem expr_after {d : Expr} (hr : m.Returns m') (hd : g.expr m.scopes m.current d) :
    g.expr m'.scopes m'.current d := by
  rw [hr.current_eq]
  exact g.expr_of_grows hr.grows hd

/-- A block in a scope inside the current one. -/
theorem pre_nest {site : Site} {b : List Stmt} (hi : g.Inv m)
    (hb : ∀ t ∈ b, g.stmt m.scopes m.current t) : g.Pre ⟨site, .block b .null, m.nest⟩ where
  inv := hi.enter_inside rfl fun _ hp => nomatch hp
  allowed := ⟨g.own_size hi.state, fun t ht => hi.stmt_enter (hb t ht) rfl,
    held_of_data Value.madeOf_null⟩

/-- The program of a library in scopes of its own. -/
theorem pre_library {site : Site} {key source : String} {natives : List (String × Value)}
    {parsed : Parsed} (hi : g.Inv m) (hn : g.HeldIn m.scopes natives) (hs : g.Admits source)
    (read : Parsed.ofSource source = .ok parsed) (clean : parsed.errors = []) :
    g.Pre ⟨site, .program parsed.program .null, m.beginLibrary key natives⟩ where
  inv := hi.beginLibrary hn
  allowed := by
    have roots : g.state (m.scopes.push ⟨Library.instantiate m.fresh Library.prelude, none⟩) :=
      g.state_push hi.state (by simp) fun _ => ⟨m.fresh, rfl⟩
    have hc : (m.beginLibrary key natives).current = m.scopes.size + 1 := Scopes.size_push _ _
    refine ⟨g.own_size roots, fun t ht => ?_, held_of_data Value.madeOf_null⟩
    simp only [hc]
    exact hs hi.state read clean ht

variable (h : g.Guarded (g.Ready n) n) {site : Site} {v : Value}

include h

theorem after_expr {e : Expr} (done : evalExpr site n e m = (.value v, m'))
    (hp : g.Ready n ⟨site, .expr e, m⟩) :
    g.Inv m' ∧ g.Held m'.scopes v ∧ m.Returns m' := by
  obtain ⟨hi, hv, -⟩ := (h.expr site e m hp).of_value done
  exact ⟨hi, hv, ((brackets n).expr site e).of_eq done⟩

theorem after_all {es : List Expr} {vs : List Value}
    (done : evalAll site n es m = (.value vs, m')) (hp : g.Ready n ⟨site, .all es, m⟩) :
    g.Inv m' ∧ g.HeldAll m'.scopes vs ∧ m.Returns m' := by
  obtain ⟨hi, hvs, -⟩ := (h.all site es m hp).of_value done
  exact ⟨hi, hvs, ((brackets n).all site es).of_eq done⟩

theorem after_stmt {t : Stmt} (done : exec site n t m = (.value v, m'))
    (hp : g.Ready n ⟨site, .stmt t, m⟩) :
    g.Inv m' ∧ g.Held m'.scopes v ∧ g.Onward m m' :=
  (h.stmt site t m hp).of_value done

theorem after_round {body : List Stmt} {r : Outcome Value}
    (done : nested (execAll site n body .null) m = (r, m'))
    (hp : g.Ready (n + 1) ⟨site, .loop body, m⟩) :
    g.Pre ⟨site, .loop body, m'⟩ ∧ g.Post g.Held m (r, m') := by
  have hround : g.Ready n ⟨site, .block body .null, m.nest⟩ :=
    ⟨pre_nest hp.inv hp.allowed, fun source hl => hp.texts source (hl.step .round)⟩
  have hpost := post_nested hp.inv.place (h.block site body .null m.nest hround)
  rw [done] at hpost
  exact ⟨⟨hpost.inv, fun t ht => hpost.onward.stmt t (hp.allowed t ht)⟩, hpost⟩

/-- The statements after one that has run. -/
theorem after_head {t : Stmt} {ts : List Stmt} {last : Value}
    (done : exec site n t m = (.value v, m')) (hp : g.Pre ⟨site, .block (t :: ts) last, m⟩)
    (texts : ∀ source, Job.Loads n ⟨site, .stmt t, m⟩ source → g.Admits source) :
    g.Pre ⟨site, .block ts v, m'⟩ := by
  obtain ⟨hown, hts, -⟩ := hp.allowed
  obtain ⟨hi, hv, ho⟩ := h.after_stmt done ⟨⟨hp.inv, hown, hts t List.mem_cons_self⟩, texts⟩
  exact ⟨hi, ho.own hown, fun u hu => ho.stmt u (hts u (List.mem_cons_of_mem _ hu)), hv⟩

/-- Every job that a job starts may begin. -/
theorem starts {j j' : Job} (hs : Starts n j j') (hp : g.Ready (n + 1) j) : g.Ready n j' := by
  have texts : ∀ {c : Job}, Starts n j c → ∀ source, c.Loads n source → g.Admits source :=
    fun hc source hl => hp.texts source (hl.step hc)
  refine ⟨?_, texts hs⟩
  have hj := hp
  obtain ⟨⟨hi, ha⟩, -⟩ := hp
  have part : ∀ {m : Machine} {e d : Expr}, g.expr m.scopes m.current e → d ∈ e.parts →
      g.expr m.scopes m.current d := fun he hd => g.expr_part he hd
  cases hs with
  | items => exact ⟨hi, fun e he => part ha he⟩
  | entries =>
    refine ⟨hi, fun p hp => ⟨part ha ?_, part ha ?_⟩, fun _ hp => nomatch hp⟩
    all_goals exact List.mem_flatMap.mpr ⟨p, hp, by simp⟩
  | operand => exact ⟨hi, part ha (by simp [Expr.parts])⟩
  | left => exact ⟨hi, part ha (by simp [Expr.parts])⟩
  | right done =>
    obtain ⟨hi', -, hr⟩ := h.after_expr done ⟨⟨hi, part ha (by simp [Expr.parts])⟩, texts .left⟩
    exact ⟨hi', expr_after hr (part ha (by simp [Expr.parts]))⟩
  | test => exact ⟨hi, part ha (by simp [Expr.parts])⟩
  | yes done =>
    obtain ⟨hi', -, hr⟩ := h.after_expr done ⟨⟨hi, part ha (by simp [Expr.parts])⟩, texts .test⟩
    exact pre_nest hi' fun t ht => g.expr_block (expr_after hr ha) (by simp [Expr.blocks]) ht
  | no done =>
    obtain ⟨hi', -, hr⟩ := h.after_expr done ⟨⟨hi, part ha (by simp [Expr.parts])⟩, texts .test⟩
    exact pre_nest hi' fun t ht => g.expr_block (expr_after hr ha) (by simp [Expr.blocks]) ht
  | callee => exact ⟨hi, part ha (by simp [Expr.parts])⟩
  | arguments done =>
    obtain ⟨hi', -, hr⟩ := h.after_expr done ⟨⟨hi, part ha (by simp [Expr.parts])⟩, texts .callee⟩
    exact ⟨hi', fun e he => expr_after hr (part ha (List.mem_cons_of_mem _ he))⟩
  | call done done' =>
    obtain ⟨hi', hf, hr⟩ := h.after_expr done ⟨⟨hi, part ha (by simp [Expr.parts])⟩, texts .callee⟩
    obtain ⟨hi'', hvs, hr'⟩ := h.after_all done'
      ⟨⟨hi', fun e he => expr_after hr (part ha (List.mem_cons_of_mem _ he))⟩,
        texts (.arguments done)⟩
    exact ⟨hi'', hf.grows hr'.grows, hvs⟩
  | collection => exact ⟨hi, part ha (by simp [Expr.parts])⟩
  | position done =>
    obtain ⟨hi', -, hr⟩ := h.after_expr done
      ⟨⟨hi, part ha (by simp [Expr.parts])⟩, texts .collection⟩
    exact ⟨hi', expr_after hr (part ha (by simp [Expr.parts]))⟩
  | measured => exact ⟨hi, part ha (by simp [Expr.parts])⟩
  | loop => exact ⟨hi, fun t ht => g.expr_block ha (by simp [Expr.blocks]) ht⟩
  | head => exact ⟨hi, ha _ List.mem_cons_self⟩
  | tail done =>
    obtain ⟨hi', -, hr⟩ := h.after_expr done ⟨⟨hi, ha _ List.mem_cons_self⟩, texts .head⟩
    exact ⟨hi', fun e he => expr_after hr (ha e (List.mem_cons_of_mem _ he))⟩
  | key => exact ⟨hi, (ha.1 _ List.mem_cons_self).1⟩
  | entry keyed =>
    obtain ⟨hi', -, hr⟩ := h.after_expr keyed ⟨⟨hi, (ha.1 _ List.mem_cons_self).1⟩, texts .key⟩
    exact ⟨hi', expr_after hr (ha.1 _ List.mem_cons_self).2⟩
  | rest keyed usable valued =>
    obtain ⟨hi', -, hr⟩ := h.after_expr keyed ⟨⟨hi, (ha.1 _ List.mem_cons_self).1⟩, texts .key⟩
    obtain ⟨hi'', hw, hr'⟩ := h.after_expr valued
      ⟨⟨hi', expr_after hr (ha.1 _ List.mem_cons_self).2⟩,
        texts (.entry keyed (by simp [usable]))⟩
    have hrr := hr.trans hr'
    refine ⟨hi'', fun p hp => ?_, heldIn_insert hw (ha.2.grows hrr.grows)⟩
    have hpa := ha.1 p (List.mem_cons_of_mem _ hp)
    exact ⟨expr_after hrr hpa.1, expr_after hrr hpa.2⟩
  | round => exact pre_nest hi ha
  | again done => exact (h.after_round done hj).1
  | body =>
    have hf := ha.1 _ (.refl _)
    refine ⟨hi.enter (fun o ho => ?_) (fun ho => ?_) (heldIn_insertAll (heldIn_zip ha.2)),
      g.own_size hi.state, fun t ht => hi.stmt_enter (g.stmt_of_closure hf ht) rfl,
      held_of_data Value.madeOf_null⟩
    · cases ho
      exact g.place_of_closure hf
    · cases ho
  | first => exact ⟨hi, ha.1, ha.2.1 _ List.mem_cons_self⟩
  | next done => exact h.after_head done ⟨hi, ha⟩ (texts .first)
  | value | bound | rebound | given => exact ⟨hi, g.stmt_part ha.2 (by simp [Stmt.parts])⟩
  | load => exact ⟨hi, trivial⟩
  | text plan => exact ⟨hi.instantiate _, heldIn_instantiate _ _⟩
  | run read clean unused =>
    have hs : g.Admits _ := hj.texts _ ⟨_, _, _, _, _, _, .refl _ _, unused⟩
    exact pre_library hi ha hs read clean
  | opening => exact ⟨hi, ha.1, ha.2.1 _ List.mem_cons_self⟩
  | onward done =>
    obtain ⟨hi', ha'⟩ := h.after_head done ⟨hi, ha⟩ (texts .opening)
    exact ⟨hi', ha'⟩

/-! ### What is known after a job -/

theorem expr_succ (e : Expr) (m : Machine) (hp : g.Ready (n + 1) ⟨site, .expr e, m⟩) :
    g.Post g.Held m (evalExpr site (n + 1) e m) := by
  have hi := hp.inv
  cases e with
  | number x line => exact post_pure hi (held_of_data (Value.madeOf_number x))
  | string s line => exact post_pure hi (held_of_data (Value.madeOf_string s))
  | bool b line => exact post_pure hi (held_of_data (Value.madeOf_bool b))
  | ident x line =>
    have hl : g.Post (fun s found => ∀ v, found = some v → g.Held s v) m (lookup x m) :=
      post_here hi (fun v hv => hi.held_lookup hv) rfl rfl
    refine post_bind hl fun found m' _ hi' hf => ?_
    cases found with
    | none => exact post_fail hi' site line _
    | some v => exact post_pure hi' (hf v rfl)
  | array items line =>
    exact post_array (h.all site items m (h.starts .items hp)) line
  | object entries line =>
    exact post_object (h.entries site line entries [] m (h.starts .entries hp))
  | prefixed op e line =>
    exact post_prefixed (h.expr site e m (h.starts .operand hp)) op line
  | between op l r line =>
    exact post_bind (h.expr site l m (h.starts .left hp)) fun v m' done _ _ =>
      post_right (h.expr site r m' (h.starts (.right done) hp)) op v line
  | cond test yes no line =>
    refine post_bind (h.expr site test m (h.starts .test hp)) fun c m' done hi' _ => ?_
    cases hc : c.isTruthy with
    | true =>
      rw [if_pos rfl]
      exact post_nested hi'.place (h.block site yes .null _ (h.starts (.yes done hc) hp))
    | false =>
      rw [if_neg (by simp)]
      cases no with
      | none => exact post_pure hi' (held_of_data Value.madeOf_null)
      | some no =>
        exact post_nested hi'.place (h.block site no .null _ (h.starts (.no done hc) hp))
  | function params body line =>
    exact post_here hi (held_function (g.closure hi.place hp.allowed m.fresh)) rfl rfl
  | call callee args line =>
    exact post_bind (h.expr site callee m (h.starts .callee hp)) fun f m' done _ _ =>
      post_bind (h.all site args m' (h.starts (.arguments done) hp)) fun vs m'' done' _ _ =>
        h.call site f vs line m'' (h.starts (.call done done') hp)
  | index c i line =>
    exact post_bind (h.expr site c m (h.starts .collection hp)) fun v m' done _ hv =>
      post_index hv (h.expr site i m' (h.starts (.position done) hp)) line
  | kindOf e line => exact post_kindOf (h.expr site e m (h.starts .measured hp)) line
  | loop body line => exact h.loop site body m (h.starts .loop hp)
  | foreign node => exact post_here hi trivial rfl rfl

theorem all_succ (es : List Expr) (m : Machine) (hp : g.Ready (n + 1) ⟨site, .all es, m⟩) :
    g.Post g.HeldAll m (evalAll site (n + 1) es m) := by
  cases es with
  | nil => exact post_pure hp.inv fun _ hv => nomatch hv
  | cons e es =>
    exact post_bind (h.expr site e m (h.starts .head hp)) fun v m' done _ hv =>
      post_cons hv (h.all site es m' (h.starts (.tail done) hp))

theorem entries_succ (line : Int) (es : List (Expr × Expr)) (done : List (Key × Value))
    (m : Machine) (hp : g.Ready (n + 1) ⟨site, .entries line es done, m⟩) :
    g.Post g.HeldIn m (evalEntries site (n + 1) line es done m) := by
  cases es with
  | nil => exact post_pure hp.inv hp.allowed.2
  | cons p es =>
    refine post_bind (h.expr site p.1 m (h.starts .key hp)) fun k m' keyed hi' _ => ?_
    cases hk : k.key? with
    | none => exact post_fail hi' site line _
    | some key =>
      have hv := h.expr site p.2 m' (h.starts (.entry keyed (by simp [hk])) hp)
      exact post_bind hv fun v m'' valued _ _ =>
        h.entries site line es _ m'' (h.starts (.rest keyed hk valued) hp)

theorem loop_succ (body : List Stmt) (m : Machine) (hp : g.Ready (n + 1) ⟨site, .loop body, m⟩) :
    g.Post g.Held m (repeatLoop site (n + 1) body m) := by
  exact post_loop (h.after_round rfl hp).2 fun done goesOn =>
    h.loop site body _ (h.starts (.again done goesOn) hp)

theorem call_succ (f : Value) (args : List Value) (line : Int) (m : Machine)
    (hp : g.Ready (n + 1) ⟨site, .call f args line, m⟩) :
    g.Post g.Held m (apply site (n + 1) f args line m) := by
  cases f with
  | native f identity => exact post_callNative hp.inv hp.allowed.2 site line
  | function f =>
    by_cases hlen : args.length = f.params.length
    · exact post_call hlen (post_within hp.inv.place ((brackets n).block site _ .null)
        (h.block site f.body .null _ (h.starts (.body hlen) hp))) line
    · rw [apply_function_of_ne site n f args line m hlen]
      exact post_fail hp.inv site line _
  | _ => exact post_fail hp.inv site line _

theorem block_succ (ss : List Stmt) (last : Value) (m : Machine)
    (hp : g.Ready (n + 1) ⟨site, .block ss last, m⟩) :
    g.Post g.Held m (execAll site (n + 1) ss last m) := by
  cases ss with
  | nil => exact post_pure hp.inv hp.allowed.2.2
  | cons t ts =>
    exact post_bind (h.stmt site t m (h.starts .first hp)) fun v m' done _ _ =>
      h.block site ts v m' (h.starts (.next done) hp)

theorem program_succ (ss : List Stmt) (last : Value) (m : Machine)
    (hp : g.Ready (n + 1) ⟨site, .program ss last, m⟩) :
    g.Post g.Held m (runProgram site (n + 1) ss last m) := by
  cases ss with
  | nil => exact post_pure hp.inv hp.allowed.2.2
  | cons t ts =>
    exact post_program (h.stmt site t m (h.starts .opening hp)) fun v m' done =>
      h.program site ts v m' (h.starts (.onward done) hp)

theorem stmt_succ (t : Stmt) (m : Machine) (hp : g.Ready (n + 1) ⟨site, .stmt t, m⟩) :
    g.Post g.Held m (exec site (n + 1) t m) := by
  have hi := hp.inv
  obtain ⟨hown, ht⟩ := hp.allowed
  cases t with
  | expr e line => exact h.expr site e m (h.starts .value hp)
  | bind x e line => exact post_bound (h.expr site e m (h.starts .bound hp)) hown ht
  | rebind x e line => exact post_rebound (h.expr site e m (h.starts .rebound hp)) hown ht
  | giveBack e line =>
    cases e with
    | none => exact post_here hi (held_of_data Value.madeOf_null) rfl rfl
    | some e => exact post_given (h.expr site e m (h.starts .given hp)) line
  | load name line => exact post_loaded (h.library site name m (h.starts .load hp)) line
  | leave line => exact post_here hi trivial rfl rfl
  | again line => exact post_here hi trivial rfl rfl
  | foreign node => exact post_here hi trivial rfl rfl

theorem library_succ (name : String) (m : Machine) (hp : g.Ready (n + 1) ⟨site, .library name, m⟩) :
    g.Post g.HeldIn m (load site (n + 1) name m) := by
  rw [load_succ]
  cases hplan : m.plan site name with
  | fault cause => exact post_here hp.inv trivial rfl rfl
  | halt h => exact post_here hp.inv trivial rfl rfl
  | hand exports => exact post_here hp.inv (heldIn_instantiate _ _) rfl rfl
  | run key source exports =>
    have ht := h.text site key name source _ _ (h.starts (.text hplan) hp)
    exact ⟨ht.inv, ⟨ht.onward.own, ht.onward.stmt⟩, ht.fine⟩

theorem text_succ (key name source : String) (natives : List (String × Value)) (m : Machine)
    (hp : g.Ready (n + 1) ⟨site, .text key name source natives, m⟩) :
    g.Post g.HeldIn m (runLibrary site (n + 1) key name source natives m) := by
  obtain ⟨r, hr, heq⟩ | ⟨parsed, r, m', read, clean, unused, -, -⟩ :=
    runLibrary_cases site n key name source natives m
  · rw [heq]
    cases hr <;> exact post_here hp.inv trivial rfl rfl
  · exact post_text hp.inv.place read clean unused
      (h.program _ parsed.program .null _ (h.starts (.run read clean unused) hp))

end Guarded

/-! ### Runs -/

theorem guarded_zero : g.Guarded (g.Ready 0) 0 where
  expr _ _ _ hp := post_exhausted hp.inv
  all _ _ _ hp := post_exhausted hp.inv
  entries _ _ _ _ _ hp := post_exhausted hp.inv
  loop _ _ _ hp := post_exhausted hp.inv
  call _ _ _ _ _ hp := post_exhausted hp.inv
  block _ _ _ _ hp := post_exhausted hp.inv
  stmt _ _ _ hp := post_exhausted hp.inv
  library _ _ _ hp := post_exhausted hp.inv
  text _ _ _ _ _ _ hp := post_exhausted hp.inv
  program _ _ _ _ hp := post_exhausted hp.inv

theorem guarded_ready (g : Guard) (n : Nat) : g.Guarded (g.Ready n) n := by
  induction n with
  | zero => exact guarded_zero
  | succ n ih =>
    exact ⟨fun _ => ih.expr_succ, fun _ => ih.all_succ, fun _ => ih.entries_succ,
      fun _ => ih.loop_succ, fun _ => ih.call_succ, fun _ => ih.block_succ, fun _ => ih.stmt_succ,
      fun _ => ih.library_succ, fun _ => ih.text_succ, fun _ => ih.program_succ⟩

/-- Every job in the course of one that may begin may begin. -/
theorem Ready.nested {n n' : Nat} {j j' : Job} (hn : Nested n j n' j') (hp : g.Ready n j) :
    g.Ready n' j' := by
  induction hn with
  | refl => exact hp
  | step hs _ ih => exact ih ((g.guarded_ready _).starts hs hp)

section
variable {g : Guard.Open}

theorem Pre.ready {j : Job} (hp : g.Pre j) (n : Nat) : g.Ready n j :=
  ⟨hp, fun source _ => g.admits source⟩

theorem Open.guarded (g : Guard.Open) (n : Nat) : g.Guarded g.Pre n where
  expr site e m hp := (g.guarded_ready n).expr site e m (hp.ready n)
  all site es m hp := (g.guarded_ready n).all site es m (hp.ready n)
  entries site line es done m hp := (g.guarded_ready n).entries site line es done m (hp.ready n)
  loop site body m hp := (g.guarded_ready n).loop site body m (hp.ready n)
  call site f args line m hp := (g.guarded_ready n).call site f args line m (hp.ready n)
  block site ss last m hp := (g.guarded_ready n).block site ss last m (hp.ready n)
  stmt site t m hp := (g.guarded_ready n).stmt site t m (hp.ready n)
  library site name m hp := (g.guarded_ready n).library site name m (hp.ready n)
  text site key name source natives m hp :=
    (g.guarded_ready n).text site key name source natives m (hp.ready n)
  program site ss last m hp := (g.guarded_ready n).program site ss last m (hp.ready n)

/-- The guard holds where a job ends. -/
theorem Pre.final {j : Job} (hp : g.Pre j) (n : Nat) : g.Inv (j.final n) := by
  obtain ⟨site, task, m⟩ := j
  have h := g.guarded n
  cases task with
  | expr e => exact (h.expr site e m hp).inv
  | all es => exact (h.all site es m hp).inv
  | entries line es done => exact (h.entries site line es done m hp).inv
  | loop body => exact (h.loop site body m hp).inv
  | call f args line => exact (h.call site f args line m hp).inv
  | block ss last => exact (h.block site ss last m hp).inv
  | stmt t => exact (h.stmt site t m hp).inv
  | library name => exact (h.library site name m hp).inv
  | text key name source natives => exact (h.text site key name source natives m hp).inv
  | program ss last => exact (h.program site ss last m hp).inv

theorem Pre.nested {n n' : Nat} {j j' : Job} (hn : Nested n j n' j') (hp : g.Pre j) : g.Pre j' :=
  ((hp.ready n).nested hn).toPre

end

end Guard

/-- What every program of a session starts with holds in all states of the session. -/
theorem Machine.Reached.inv {g : Guard.Open} {m : Machine} (h : m.Reached)
    (hpre : ∀ rest : Machine, rest.Rests → ∀ (site : Site) (program : Program),
      g.Pre ⟨site, .program program .null, rest⟩) : g.Inv m := by
  obtain ⟨rest, hrest, site, n, program, n', j, hn, hm⟩ := h
  have hj := (hpre rest hrest site program).nested hn
  rcases hm with rfl | rfl
  · exact hj.inv
  · exact hj.final n'

end MeowLang
