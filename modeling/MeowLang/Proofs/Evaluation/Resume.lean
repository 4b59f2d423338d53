import MeowLang.Proofs.Evaluation.Ordered

/-! Guards that come to hold in the middle of a run. The jobs around one after which a guard holds
go on where it has ended, so the guard holds when they end and wherever they start another job.
All that is asked of the code and the values from before is that they are older than what the
guard forbids. -/
namespace MeowLang

open Eval

namespace Guard

variable {α β : Type} {g : Guard} {m m' : Machine} {n k : Nat}

def PostOf (g : Guard) (n : Nat) : Job → Prop
  | ⟨site, .expr e, m⟩ => g.Post g.Held m (evalExpr site n e m)
  | ⟨site, .all es, m⟩ => g.Post g.HeldAll m (evalAll site n es m)
  | ⟨site, .entries line es done, m⟩ => g.Post g.HeldIn m (evalEntries site n line es done m)
  | ⟨site, .loop body, m⟩ => g.Post g.Held m (repeatLoop site n body m)
  | ⟨site, .call f args line, m⟩ => g.Post g.Held m (apply site n f args line m)
  | ⟨site, .block ss last, m⟩ => g.Post g.Held m (execAll site n ss last m)
  | ⟨site, .stmt t, m⟩ => g.Post g.Held m (exec site n t m)
  | ⟨site, .library name, m⟩ => g.Post g.HeldIn m (load site n name m)
  | ⟨site, .text key name source natives, m⟩ =>
    g.Post g.HeldIn m (runLibrary site n key name source natives m)
  | ⟨site, .program ss last, m⟩ => g.Post g.Held m (runProgram site n ss last m)

theorem PostOf.inv {j : Job} (h : g.PostOf n j) : g.Inv (j.final n) := by
  obtain ⟨site, task, m⟩ := j
  cases task <;> exact Post.inv h

theorem PostOf.onward {j : Job} (h : g.PostOf n j) : g.Onward j.machine (j.final n) := by
  obtain ⟨site, task, m⟩ := j
  cases task <;> exact Post.onward h

theorem Pre.postOf {g : Guard.Open} {j : Job} (hp : g.Pre j) (n : Nat) : g.PostOf n j := by
  obtain ⟨site, task, m⟩ := j
  have h := g.guarded n
  cases task with
  | expr e => exact h.expr site e m hp
  | all es => exact h.all site es m hp
  | entries line es done => exact h.entries site line es done m hp
  | loop body => exact h.loop site body m hp
  | call f args line => exact h.call site f args line m hp
  | block ss last => exact h.block site ss last m hp
  | stmt t => exact h.stmt site t m hp
  | library name => exact h.library site name m hp
  | text key name source natives => exact h.text site key name source natives m hp
  | program ss last => exact h.program site ss last m hp

/-- A guard has nothing against the code and the values that are there before `k` scopes are. -/
structure Lenient (g : Guard) (k : Nat) : Prop where
  place : ∀ {s c}, s.Ordered → s.size ≤ k → c < s.size → g.place s c
  own : ∀ {c}, c < k → g.own c
  expr : ∀ {s c}, s.Ordered → s.size ≤ k → c < s.size → ∀ e, g.expr s c e
  stmt : ∀ {s c}, s.Ordered → s.size ≤ k → c < s.size → ∀ t, g.stmt s c t
  node : ∀ {s v}, s.Ordered → s.size ≤ k → ordered.node s v → g.node s v

/-- After a part that has a value. -/
theorem post_after {H : Scopes → β → Prop} {p : Eval α} {f : α → Eval β} {a : α}
    (done : p m = (.value a, m')) (ho : g.Onward m m') (hf : g.Post H m' (f a m')) :
    g.Post H m ((p >>= f) m) := by
  rw [bind_apply, done]
  exact ⟨hf.inv, ho.trans hf.onward, hf.fine⟩

section
variable (hl : g.Lenient k) (hi : ordered.Inv m) (hm : m.scopes.size ≤ k)

include hl hi hm

theorem Lenient.place_here : g.place m.scopes m.current := hl.place hi.state hm hi.place

theorem Lenient.own_here : g.own m.current := hl.own (Nat.lt_of_lt_of_le hi.place hm)

theorem Lenient.expr_here (e : Expr) : g.expr m.scopes m.current e := hl.expr hi.state hm hi.place e

theorem Lenient.stmt_here (t : Stmt) : g.stmt m.scopes m.current t := hl.stmt hi.state hm hi.place t

theorem Lenient.held {v : Value} (hv : ordered.Held m.scopes v) : g.Held m.scopes v :=
  fun u hu => hl.node hi.state hm (hv u hu)

end

/-- From one state to a later one, both before `k` scopes are there. -/
theorem Lenient.onward (hl : g.Lenient k) (hi : ordered.Inv m') (hm : m'.scopes.size ≤ k) :
    g.Onward m m' :=
  ⟨fun _ => hl.own_here hi hm, fun t _ => hl.stmt_here hi hm t⟩

end Guard

open Guard

/-! ### Growth of the scopes -/

/-- The scopes of `old` stand where they stood. -/
def Guard.grown (old : Scopes) : Guard.Open where
  state s := old.Grows s
  place _ _ := True
  own _ := True
  region _ := True
  node _ _ := True
  expr _ _ _ := True
  stmt _ _ _ := True
  node_of_isData _ := trivial
  node_of_grows _ h := h
  place_of_grows _ h := h
  expr_of_grows _ h := h
  stmt_of_grows _ h := h
  region_of_mem_chain _ _ := trivial
  expr_part _ _ := trivial
  expr_block _ _ _ := trivial
  stmt_part _ _ := trivial
  stmt_inner _ _ _ := trivial
  closure _ _ _ := trivial
  place_of_closure _ := trivial
  stmt_of_closure _ _ := trivial
  state_push h _ _ := h.trans (Scopes.grows_push _ _)
  place_push _ _ := trivial
  own_size _ := trivial
  stmt_of_library _ _ _ _ := trivial
  state_bind h _ _ := h.trans (Scopes.grows_set _ _ _ _)
  state_rebind h _ _ := h.trans (Scopes.grows_set _ _ _ _)

theorem Guard.grown_inv {old : Scopes} {m : Machine} (h : old.Grows m.scopes) :
    (grown old).Inv m := ⟨h, trivial, fun _ _ _ _ _ _ => trivial⟩

theorem Guard.grown_pre (j : Job) : (grown j.machine.scopes).Pre j := by
  obtain ⟨site, task, m⟩ := j
  refine ⟨grown_inv (.refl _), ?_⟩
  cases task <;> simp [Allowed, Held, HeldAll, HeldIn, grown]

theorem Guard.grown_post {α : Type} {H : Scopes → α → Prop} (hH : ∀ s a, H s a) (m : Machine)
    (p : Outcome α × Machine) : (grown p.2.scopes).Post H m p := by
  refine ⟨grown_inv (.refl _), ⟨fun _ => trivial, fun _ _ => trivial⟩, ?_⟩
  obtain ⟨r, m'⟩ := p
  cases r with
  | value a => exact hH _ a
  | signal t =>
    cases t with
    | returned v => exact fun _ _ => trivial
    | failed fault => trivial
    | control c => trivial
  | halted h => trivial
  | exhausted => trivial

theorem Guard.grown_postOf (n : Nat) (j : Job) : (grown (j.final n).scopes).PostOf n j := by
  obtain ⟨site, task, m⟩ := j
  cases task <;> exact grown_post (by simp [Held, HeldAll, HeldIn, grown]) m _

theorem Guard.grown_lenient (old : Scopes) (k : Nat) : (grown old).Lenient k :=
  ⟨fun _ _ _ => trivial, fun _ => trivial, fun _ _ _ _ => trivial, fun _ _ _ _ => trivial,
    fun _ _ _ => trivial⟩

/-! ### After a part -/

section
variable {g : Guard.Open} {n k : Nat} {j a b : Job}

theorem Nested.grows {n' : Nat} (h : Nested n j n' a) : j.machine.scopes.Grows a.machine.scopes :=
  ((grown_pre j).nested h).inv.state

theorem Job.grows_final (n : Nat) (j : Job) : j.machine.scopes.Grows (j.final n).scopes :=
  ((grown_pre j).final n).state

theorem Starts.size_le (hs : Starts n j a) : j.machine.scopes.size ≤ a.machine.scopes.size :=
  (Nested.step hs (.refl n a)).grows.size_le

theorem Starts.pre_ordered (hs : Starts n j a) (hj : ordered.Pre j) : ordered.Pre a :=
  hj.nested (.step hs (.refl n a))

theorem Guard.PostOf.after_expr {site : Site} {e : Expr} {m m' : Machine} {v : Value}
    (hp : g.PostOf n ⟨site, .expr e, m⟩) (done : evalExpr site n e m = (.value v, m')) :
    g.Inv m' ∧ g.Held m'.scopes v ∧ m.Returns m' := by
  obtain ⟨hi, hv, -⟩ := Post.of_value hp done
  exact ⟨hi, hv, ((brackets n).expr site e).of_eq done⟩

theorem Guard.PostOf.after_all {site : Site} {es : List Expr} {m m' : Machine} {vs : List Value}
    (hp : g.PostOf n ⟨site, .all es, m⟩) (done : evalAll site n es m = (.value vs, m')) :
    g.Inv m' ∧ g.HeldAll m'.scopes vs ∧ m.Returns m' := by
  obtain ⟨hi, hvs, -⟩ := Post.of_value hp done
  exact ⟨hi, hvs, ((brackets n).all site es).of_eq done⟩

/-- The statements after one after which the guard holds. -/
theorem Guard.PostOf.after_stmt {site : Site} {t : Stmt} {m m' : Machine} {v : Value}
    (hp : g.PostOf n ⟨site, .stmt t, m⟩) (done : exec site n t m = (.value v, m'))
    (hown : g.own m.current) (hstmt : ∀ t, g.stmt m.scopes m.current t) (ts : List Stmt) :
    g.Pre ⟨site, .block ts v, m'⟩ := by
  obtain ⟨hi, hv, ho⟩ := Post.of_value hp done
  exact ⟨hi, ho.own hown, fun u _ => ho.stmt u (hstmt u), hv⟩

/-! ### The order of the parts -/

/-- What the job may start once one of its parts has come to a value. -/
inductive Later (n : Nat) : Job → Job → Job → Prop
  -- after an expression that is evaluated in the scope of the job
  | expr {j d e v m'} (done : evalExpr j.site n d j.machine = (.value v, m')) :
      Later n j ⟨j.site, .expr d, j.machine⟩ ⟨j.site, .expr e, m'⟩
  | all {j d es v m'} (done : evalExpr j.site n d j.machine = (.value v, m')) :
      Later n j ⟨j.site, .expr d, j.machine⟩ ⟨j.site, .all es, m'⟩
  | branch {j d b v m'} (done : evalExpr j.site n d j.machine = (.value v, m')) :
      Later n j ⟨j.site, .expr d, j.machine⟩ ⟨j.site, .block b .null, m'.nest⟩
  -- calls
  | called {site callee args line m f m' vs m''}
      (done : evalExpr site n callee m = (.value f, m'))
      (done' : evalAll site n args m' = (.value vs, m'')) :
      Later n ⟨site, .expr (.call callee args line), m⟩ ⟨site, .expr callee, m⟩
        ⟨site, .call f vs line, m''⟩
  | call {site callee args line m f m' vs m''}
      (done : evalExpr site n callee m = (.value f, m'))
      (done' : evalAll site n args m' = (.value vs, m'')) :
      Later n ⟨site, .expr (.call callee args line), m⟩ ⟨site, .all args, m'⟩
        ⟨site, .call f vs line, m''⟩
  -- the entries of an object behind a key and behind a value
  | keyed {site line k e es done m v m' key w m''}
      (keyed : evalExpr site n k m = (.value v, m'))
      (valued : evalExpr site n e m' = (.value w, m'')) :
      Later n ⟨site, .entries line ((k, e) :: es) done, m⟩ ⟨site, .expr k, m⟩
        ⟨site, .entries line es (Assoc.insert key w done), m''⟩
  | valued {site line k e es done m v m' key w m''}
      (keyed : evalExpr site n k m = (.value v, m'))
      (valued : evalExpr site n e m' = (.value w, m'')) :
      Later n ⟨site, .entries line ((k, e) :: es) done, m⟩ ⟨site, .expr e, m'⟩
        ⟨site, .entries line es (Assoc.insert key w done), m''⟩
  -- loops and statements
  | again {site body m r m'} (done : nested (execAll site n body .null) m = (r, m')) :
      Later n ⟨site, .loop body, m⟩ ⟨site, .block body .null, m.nest⟩ ⟨site, .loop body, m'⟩
  | next {site t ts last m v m'} (done : exec site n t m = (.value v, m')) :
      Later n ⟨site, .block (t :: ts) last, m⟩ ⟨site, .stmt t, m⟩ ⟨site, .block ts v, m'⟩
  | onward {site t ts last m v m'} (done : exec site n t m = (.value v, m')) :
      Later n ⟨site, .program (t :: ts) last, m⟩ ⟨site, .stmt t, m⟩ ⟨site, .program ts v, m'⟩

theorem Eval.result_unique {α : Type} {p : Eval α} {m m' m'' : Machine} {r r' : Outcome α}
    (h : p m = (r, m')) (h' : p m = (r', m'')) : r = r' ∧ m' = m'' :=
  Prod.mk.inj (h.symm.trans h')

/-- Two parts of an expression are the same, or one of them is later than the other. -/
theorem Starts.trichotomy_expr {site : Site} {e : Expr} {m : Machine}
    (ha : Starts n ⟨site, .expr e, m⟩ a) (hb : Starts n ⟨site, .expr e, m⟩ b) :
    a = b ∨ Later n ⟨site, .expr e, m⟩ a b ∨ Later n ⟨site, .expr e, m⟩ b a := by
  cases ha with
  | items | entries | operand | measured | loop =>
    cases hb
    exact .inl rfl
  | left =>
    cases hb with
    | left => exact .inl rfl
    | right done => exact .inr (.inl (.expr done))
  | right done =>
    cases hb with
    | left => exact .inr (.inr (.expr done))
    | right done' =>
      obtain ⟨-, rfl⟩ := result_unique done done'
      exact .inl rfl
  | test =>
    cases hb with
    | test => exact .inl rfl
    | yes done | no done => exact .inr (.inl (.branch done))
  | yes done holds =>
    cases hb with
    | test => exact .inr (.inr (.branch done))
    | yes done' =>
      obtain ⟨-, rfl⟩ := result_unique done done'
      exact .inl rfl
    | no done' fails =>
      obtain ⟨⟨⟩, rfl⟩ := result_unique done done'
      cases holds.symm.trans fails
  | no done fails =>
    cases hb with
    | test => exact .inr (.inr (.branch done))
    | yes done' holds =>
      obtain ⟨⟨⟩, rfl⟩ := result_unique done done'
      cases holds.symm.trans fails
    | no done' =>
      obtain ⟨-, rfl⟩ := result_unique done done'
      exact .inl rfl
  | callee =>
    cases hb with
    | callee => exact .inl rfl
    | arguments done => exact .inr (.inl (.all done))
    | call done done' => exact .inr (.inl (.called done done'))
  | arguments done =>
    cases hb with
    | callee => exact .inr (.inr (.all done))
    | arguments done' =>
      obtain ⟨-, rfl⟩ := result_unique done done'
      exact .inl rfl
    | call done' done'' =>
      obtain ⟨-, rfl⟩ := result_unique done done'
      exact .inr (.inl (.call done' done''))
  | call done₁ done₂ =>
    cases hb with
    | callee => exact .inr (.inr (.called done₁ done₂))
    | arguments done =>
      obtain ⟨-, rfl⟩ := result_unique done₁ done
      exact .inr (.inr (.call done₁ done₂))
    | call done done' =>
      obtain ⟨⟨⟩, rfl⟩ := result_unique done₁ done
      obtain ⟨⟨⟩, rfl⟩ := result_unique done₂ done'
      exact .inl rfl
  | collection =>
    cases hb with
    | collection => exact .inl rfl
    | position done => exact .inr (.inl (.expr done))
  | position done =>
    cases hb with
    | collection => exact .inr (.inr (.expr done))
    | position done' =>
      obtain ⟨-, rfl⟩ := result_unique done done'
      exact .inl rfl

/-- Two parts of a job are the same, or one of them is later than the other. -/
theorem Starts.trichotomy (ha : Starts n j a) (hb : Starts n j b) :
    a = b ∨ Later n j a b ∨ Later n j b a := by
  obtain ⟨site, task, m⟩ := j
  cases task with
  | expr e => exact ha.trichotomy_expr hb
  | all es =>
    cases ha with
    | head =>
      cases hb with
      | head => exact .inl rfl
      | tail done => exact .inr (.inl (.all done))
    | tail done =>
      cases hb with
      | head => exact .inr (.inr (.all done))
      | tail done' =>
        obtain ⟨-, rfl⟩ := result_unique done done'
        exact .inl rfl
  | entries line es done =>
    cases ha with
    | key =>
      cases hb with
      | key => exact .inl rfl
      | entry keyed => exact .inr (.inl (.expr keyed))
      | rest keyed usable valued => exact .inr (.inl (.keyed keyed valued))
    | entry keyed₁ =>
      cases hb with
      | key => exact .inr (.inr (.expr keyed₁))
      | entry keyed =>
        obtain ⟨-, rfl⟩ := result_unique keyed₁ keyed
        exact .inl rfl
      | rest keyed usable valued =>
        obtain ⟨-, rfl⟩ := result_unique keyed₁ keyed
        exact .inr (.inl (.valued keyed valued))
    | rest keyed₁ usable₁ valued₁ =>
      cases hb with
      | key => exact .inr (.inr (.keyed keyed₁ valued₁))
      | entry keyed =>
        obtain ⟨-, rfl⟩ := result_unique keyed₁ keyed
        exact .inr (.inr (.valued keyed₁ valued₁))
      | rest keyed usable valued =>
        obtain ⟨⟨⟩, rfl⟩ := result_unique keyed₁ keyed
        cases usable₁.symm.trans usable
        obtain ⟨⟨⟩, rfl⟩ := result_unique valued₁ valued
        exact .inl rfl
  | loop body =>
    cases ha with
    | round =>
      cases hb with
      | round => exact .inl rfl
      | again done => exact .inr (.inl (.again done))
    | again done =>
      cases hb with
      | round => exact .inr (.inr (.again done))
      | again done' =>
        obtain ⟨-, rfl⟩ := result_unique done done'
        exact .inl rfl
  | call f args line =>
    cases ha
    cases hb
    exact .inl rfl
  | block ss last =>
    cases ha with
    | first =>
      cases hb with
      | first => exact .inl rfl
      | next done => exact .inr (.inl (.next done))
    | next done =>
      cases hb with
      | first => exact .inr (.inr (.next done))
      | next done' =>
        obtain ⟨⟨⟩, rfl⟩ := result_unique done done'
        exact .inl rfl
  | stmt t =>
    cases ha <;> cases hb <;> exact .inl rfl
  | library name =>
    cases ha with
    | text plan =>
      cases hb with
      | text plan' =>
        cases plan.symm.trans plan'
        exact .inl rfl
  | text key name source natives =>
    cases ha with
    | run read =>
      cases hb with
      | run read' =>
        cases read.symm.trans read'
        exact .inl rfl
  | program ss last =>
    cases ha with
    | opening =>
      cases hb with
      | opening => exact .inl rfl
      | onward done => exact .inr (.inl (.onward done))
    | onward done =>
      cases hb with
      | opening => exact .inr (.inr (.onward done))
      | onward done' =>
        obtain ⟨⟨⟩, rfl⟩ := result_unique done done'
        exact .inl rfl

/-- A part has ended when a later one begins. -/
theorem Later.final_size_le (h : Later n j a b) :
    (a.final n).scopes.size ≤ b.machine.scopes.size := by
  cases h with
  | expr done | all done => simp [Job.final, done]
  | branch done => simp [Job.final, done, Machine.nest, Machine.enter]
  | @called site callee args _ _ _ m' _ _ done done' =>
    have hr := ((brackets n).all site args).of_eq done'
    simpa [Job.final, done] using hr.grows.size_le
  | call done done' => simp [Job.final, done']
  | @keyed site _ k e _ _ _ _ m' _ _ _ keyed valued =>
    have hr := ((brackets n).expr site e).of_eq valued
    simpa [Job.final, keyed] using hr.grows.size_le
  | valued keyed valued => simp [Job.final, valued]
  | again done => exact Nat.le_of_eq (congrArg (fun p => p.2.scopes.size) done)
  | next done | onward done => simp [Job.final, done]

section
variable (hl : g.Lenient k) (hj : ordered.Pre j) (hm : j.machine.scopes.size ≤ k)

include hl hj hm

/-- The entries of an object that are still to come, behind the ones that are done. -/
theorem Guard.Lenient.pre_entries {site : Site} {line : Int} {es : List (Expr × Expr)}
    {done : List (Key × Value)} {m' : Machine} {key : Key} {w : Value} (hr : j.machine.Returns m')
    (hi : g.Inv m') (hw : g.Held m'.scopes w) (hdone : ordered.HeldIn j.machine.scopes done) :
    g.Pre ⟨site, .entries line es (Assoc.insert key w done), m'⟩ := by
  have hexpr (e : Expr) : g.expr m'.scopes m'.current e :=
    Guarded.expr_after hr (hl.expr_here hj.inv hm e)
  have hold : g.HeldIn j.machine.scopes done := fun p hp => hl.held hj.inv hm (hdone p hp)
  exact ⟨hi, fun p _ => ⟨hexpr p.1, hexpr p.2⟩, heldIn_insert hw (hold.grows hr.grows)⟩

/-- After a part after which the guard holds, a later one may begin. -/
theorem Later.pre (h : Later n j a b) (hk : a.machine.scopes.size ≤ k) (hp : g.PostOf n a) :
    g.Pre b := by
  have hexpr := hl.expr_here hj.inv hm
  have hstmt := hl.stmt_here hj.inv hm
  have hown := hl.own_here hj.inv hm
  cases h with
  | expr done =>
    obtain ⟨hi, -, hr⟩ := hp.after_expr done
    exact ⟨hi, Guarded.expr_after hr (hexpr _)⟩
  | all done =>
    obtain ⟨hi, -, hr⟩ := hp.after_expr done
    exact ⟨hi, fun e _ => Guarded.expr_after hr (hexpr e)⟩
  | branch done =>
    obtain ⟨hi, -, hr⟩ := hp.after_expr done
    exact Guarded.pre_nest hi fun t _ => (onward_of_returns hr).stmt t (hstmt t)
  | @called site _ args _ _ _ m' _ _ done done' =>
    obtain ⟨hi, hf, hr⟩ := hp.after_expr done
    have hargs : g.Pre ⟨site, .all args, m'⟩ := ⟨hi, fun e _ => Guarded.expr_after hr (hexpr e)⟩
    obtain ⟨hi', hvs, hr'⟩ := (hargs.postOf n).after_all done'
    exact ⟨hi', hf.grows hr'.grows, hvs⟩
  | call done done' =>
    have hcallee := (Starts.callee.pre_ordered (n := n) hj).postOf n
    obtain ⟨hi, hf, -⟩ := hcallee.after_expr done
    obtain ⟨hi', hvs, hr'⟩ := hp.after_all done'
    exact ⟨hi', (hl.held hi hk hf).grows hr'.grows, hvs⟩
  | @keyed site _ _ e _ _ _ _ m' _ _ _ keyed valued =>
    obtain ⟨hi, -, hr⟩ := hp.after_expr keyed
    have hvalue : g.Pre ⟨site, .expr e, m'⟩ := ⟨hi, Guarded.expr_after hr (hexpr e)⟩
    obtain ⟨hi', hw, hr'⟩ := (hvalue.postOf n).after_expr valued
    exact hl.pre_entries hj hm (hr.trans hr') hi' hw hj.allowed.2
  | @valued site _ k _ _ _ _ _ _ _ _ _ keyed valued =>
    have hr := ((brackets n).expr site k).of_eq keyed
    obtain ⟨hi, hw, hr'⟩ := hp.after_expr valued
    exact hl.pre_entries hj hm (hr.trans hr') hi hw hj.allowed.2
  | @again site body m r m' done =>
    have hround := post_nested (hl.place_here hj.inv hm) hp
    rw [done] at hround
    exact ⟨hround.inv, fun t _ => hround.onward.stmt t (hstmt t)⟩
  | next done => exact hp.after_stmt done hown hstmt _
  | onward done =>
    obtain ⟨hi, hallowed⟩ := hp.after_stmt done hown hstmt _
    exact ⟨hi, hallowed⟩

end

/-! ### Going on -/

/-- After a part that has a value and leaves the scope as it was. -/
theorem Guard.post_after_expr {α : Type} {H : Scopes → α → Prop} {site : Site} {e : Expr}
    {f : Value → Eval α} {m m' : Machine} {v : Value} (done : evalExpr site n e m = (.value v, m'))
    (hf : g.Post H m' (f v m')) : g.Post H m ((evalExpr site n e >>= f) m) :=
  post_after done (onward_of_returns (((brackets n).expr site e).of_eq done)) hf

/-- A block may stand in the scope that an expression has left, if few scopes are there yet. -/
theorem Guard.Lenient.place_after_expr (hl : g.Lenient k) {site : Site} {e : Expr} {m m' : Machine}
    {v : Value} (he : ordered.Pre ⟨site, .expr e, m⟩) (done : evalExpr site n e m = (.value v, m'))
    (hk : m'.nest.scopes.size ≤ k) : g.place m'.scopes m'.current := by
  obtain ⟨hi, -, -⟩ := (he.postOf n).after_expr done
  exact hl.place_here hi (Nat.le_trans (m'.scopes.grows_push _).size_le hk)

/-- An expression goes on after a part of it after which the guard holds. -/
theorem Starts.resume_expr {site : Site} {e : Expr} {m : Machine}
    (hs : Starts n ⟨site, .expr e, m⟩ a) (hl : g.Lenient k) (hj : ordered.Pre ⟨site, .expr e, m⟩)
    (hk : a.machine.scopes.size ≤ k) (ha : g.PostOf n a) :
    g.Post g.Held m (evalExpr site (n + 1) e m) := by
  have h := g.guarded n
  have later {b : Job} (hb : Later n ⟨site, .expr e, m⟩ a b) : g.Pre b :=
    hb.pre hl hj (Nat.le_trans hs.size_le hk) hk ha
  cases hs with
  | items => exact post_array ha _
  | entries => exact post_object ha
  | operand => exact post_prefixed ha _ _
  | left =>
    exact post_bind ha fun v m' done _ _ => post_right (h.expr site _ m' (later (.expr done))) _ v _
  | right done => exact post_after_expr done (post_right ha _ _ _)
  | @test _ test yes no line _ =>
    refine post_bind ha fun c m' done hi _ => ?_
    have block (b : List Stmt) : g.Post g.Held m' (nested (execAll site n b .null) m') :=
      post_nested hi.place (h.block site b .null _ (later (.branch done)))
    cases hc : c.isTruthy with
    | true => exact block yes
    | false =>
      cases no with
      | none => exact post_pure hi (held_of_data Value.madeOf_null)
      | some no => exact block no
  | yes done holds =>
    refine post_after_expr done ?_
    simp only [holds, if_true]
    exact post_nested (hl.place_after_expr (Starts.test.pre_ordered (n := n) hj) done hk) ha
  | no done fails =>
    refine post_after_expr done ?_
    simp only [fails, Bool.false_eq_true, if_false]
    exact post_nested (hl.place_after_expr (Starts.test.pre_ordered (n := n) hj) done hk) ha
  | callee =>
    refine post_bind ha fun f m' done _ _ => ?_
    exact post_bind (h.all site _ m' (later (.all done))) fun vs m'' done' _ _ =>
      h.call site f vs _ m'' (later (.called done done'))
  | arguments done =>
    refine post_after_expr done (post_bind ha fun vs m'' done' _ _ => ?_)
    exact h.call site _ vs _ m'' (later (.call done done'))
  | @call _ callee args line _ f m' vs m'' done done' =>
    have hr := ((brackets n).all site args).of_eq done'
    exact post_after_expr done (post_after done' (onward_of_returns hr) ha)
  | collection =>
    exact post_bind ha fun v m' done _ hv => post_index hv (h.expr site _ m' (later (.expr done))) _
  | position done =>
    obtain ⟨hi, hv, -⟩ := ((Starts.collection.pre_ordered (n := n) hj).postOf n).after_expr done
    exact post_after_expr done (post_index (hl.held hi hk hv) ha _)
  | measured => exact post_kindOf ha _
  | loop => exact ha

/-- A job goes on after a part of it after which the guard holds. -/
theorem Starts.resume (hs : Starts n j a) (hl : g.Lenient k) (hj : ordered.Pre j)
    (hk : a.machine.scopes.size ≤ k) (ha : g.PostOf n a) : g.PostOf (n + 1) j := by
  have h := g.guarded n
  have hm : j.machine.scopes.size ≤ k := Nat.le_trans hs.size_le hk
  have later {b : Job} (hb : Later n j a b) : g.Pre b := hb.pre hl hj hm hk ha
  have hplace := hl.place_here hj.inv hm
  have hstmt := hl.stmt_here hj.inv hm
  have hown := hl.own_here hj.inv hm
  obtain ⟨site, task, m⟩ := j
  cases task with
  | expr e => exact hs.resume_expr hl hj hk ha
  | all es =>
    cases hs with
    | head =>
      exact post_bind ha fun v m' done _ hv => post_cons hv (h.all site _ m' (later (.all done)))
    | tail done =>
      obtain ⟨hi, hv, -⟩ := ((Starts.head.pre_ordered (n := n) hj).postOf n).after_expr done
      exact post_after_expr done (post_cons (hl.held hi hk hv) ha)
  | entries line es entries =>
    cases hs with
    | key =>
      refine post_bind ha fun v m' keyed hi _ => ?_
      cases hv : v.key? with
      | none => exact post_fail hi site line _
      | some key =>
        exact post_bind (h.expr site _ m' (later (.expr keyed))) fun w m'' valued _ _ =>
          h.entries site line _ _ m'' (later (.keyed keyed valued))
    | entry keyed usable =>
      obtain ⟨key, hv⟩ := Option.isSome_iff_exists.mp usable
      refine post_after_expr keyed ?_
      simp only [hv]
      exact post_bind ha fun w m'' valued _ _ =>
        h.entries site line _ _ m'' (later (.valued keyed valued))
    | rest keyed usable valued =>
      refine post_after_expr keyed ?_
      simp only [usable]
      exact post_after_expr valued ha
  | loop body =>
    cases hs with
    | round =>
      exact post_loop (post_nested hplace ha) fun done _ => h.loop site body _ (later (.again done))
    | @again _ _ _ r m' done goesOn =>
      have hr := (returns_nested ((brackets n).block site body .null)).of_eq done
      have heq : repeatLoop site (n + 1) body m = repeatLoop site n body m' := by
        rcases goesOn with ⟨v, rfl⟩ | rfl <;> simp only [repeatLoop, done]
      show g.Post g.Held m (repeatLoop site (n + 1) body m)
      rw [heq]
      exact ⟨Post.inv ha, (onward_of_returns hr).trans (Post.onward ha), Post.fine ha⟩
  | call f args line =>
    cases hs with
    | body arity =>
      exact post_call arity (post_within hplace ((brackets n).block site _ .null) ha) line
  | block ss last =>
    cases hs with
    | first => exact post_bind ha fun v m' done _ _ => h.block site _ v m' (later (.next done))
    | next done =>
      have hstarted := (Starts.first.pre_ordered (n := n) hj).postOf n
      have hi := (hstarted.after_stmt done trivial (fun _ => trivial) []).inv
      exact post_after done (hl.onward hi hk) ha
  | stmt t =>
    cases hs with
    | value => exact ha
    | bound => exact post_bound ha hown (hstmt _)
    | rebound => exact post_rebound ha hown (hstmt _)
    | given => exact post_given ha _
    | load => exact post_loaded ha _
  | library name =>
    cases hs with
    | text plan =>
      show g.Post g.HeldIn m (MeowLang.load site (n + 1) name m)
      rw [load_succ, plan]
      exact ⟨Post.inv ha, ⟨(Post.onward ha).own, (Post.onward ha).stmt⟩, Post.fine ha⟩
  | text key name source natives =>
    cases hs with
    | run read clean unused => exact post_text hplace read clean unused ha
  | program ss last =>
    cases hs with
    | opening => exact post_program ha fun v m' done => h.program site _ v m' (later (.onward done))
    | @onward _ t ts _ _ v m' done =>
      have hstarted := (Starts.opening.pre_ordered (n := n) hj).postOf n
      have hi := (hstarted.after_stmt done trivial (fun _ => trivial) []).inv
      have ho : g.Onward m m' := hl.onward hi hk
      show g.Post g.Held m (runProgram site (n + 1) (t :: ts) last m)
      simp only [runProgram, done]
      exact ⟨Post.inv ha, ho.trans (Post.onward ha), Post.fine ha⟩

/-! ### The whole course of a job -/

theorem Nested.size_le {n' : Nat} (h : Nested n j n' a) :
    j.machine.scopes.size ≤ a.machine.scopes.size := h.grows.size_le

/-- A job goes on after one in its course after which the guard holds. -/
theorem Nested.resume {n' : Nat} (h : Nested n j n' a) (hl : g.Lenient k) (hj : ordered.Pre j)
    (hk : a.machine.scopes.size ≤ k) (ha : g.PostOf n' a) : g.PostOf n j := by
  induction h with
  | refl n j => exact ha
  | step starts rest ih =>
    apply starts.resume hl hj (Nat.le_trans rest.size_le hk)
    exact ih (starts.pre_ordered hj) hk ha

/-- What stands where a job ends still stands there where the job around it ends. -/
theorem Nested.final_grows {n' : Nat} (h : Nested n j n' a) (hj : ordered.Pre j) :
    (a.final n').scopes.Grows (j.final n).scopes :=
  (h.resume (grown_lenient _ _) hj (Nat.le_refl _) (grown_postOf n' a)).inv.state

theorem Nested.size_le_final {n' : Nat} (h : Nested n j n' a) (hj : ordered.Pre j) :
    a.machine.scopes.size ≤ (j.final n).scopes.size :=
  ((a.grows_final n').trans (h.final_grows hj)).size_le

/-- A job in whose course the guard comes to hold lets every later job begin that is not in the
course of the one that made it hold. -/
theorem Nested.pre_or_nested {n' n'' : Nat} (ha : Nested n j n' a) (hb : Nested n j n'' b)
    (hl : g.Lenient a.machine.scopes.size) (hj : ordered.Pre j) (hp : g.PostOf n' a)
    (hlt : a.machine.scopes.size < b.machine.scopes.size) : g.Pre b ∨ Nested n' a n'' b := by
  induction ha with
  | refl n j => exact .inr hb
  | step starts rest ih =>
    cases hb with
    | refl =>
      have hle := Nat.le_trans starts.size_le rest.size_le
      omega
    | step starts' rest' =>
      have hmid := starts.pre_ordered hj
      have hpost := rest.resume hl hmid (Nat.le_refl _) hp
      -- the second job is in the same part, or in a later one, or in an earlier one
      rcases starts.trichotomy starts' with rfl | hlater | hearlier
      · exact ih rest' hl hmid hp hlt
      · have hm := Nat.le_trans starts.size_le rest.size_le
        exact .inl ((hlater.pre hl hj hm rest.size_le hpost).nested rest')
      · have hend := rest'.size_le_final (starts'.pre_ordered hj)
        have hbetween := hearlier.final_size_le
        have hstart := rest.size_le
        omega

/-! ### Sessions -/

/-- The states between the programs of a session, from one of them on. -/
inductive Machine.Since (m : Machine) : Machine → Prop
  | refl : Since m m
  | run {m' : Machine} (since : Since m m') (site : Site) (n : Nat) (program : Program) :
      Since m (runProgram site n program .null m').2
  | wait {m' : Machine} (since : Since m m') (world : World) : Since m { m' with world := world }

/-- `j'` is evaluated in the course of the program `j`, or of a later one of the same session. -/
def Follows (n : Nat) (j : Job) (n' : Nat) (j' : Job) : Prop :=
  Nested n j n' j' ∨ ∃ m site k program, (j.final n).Since m ∧
    Nested k ⟨site, .program program .null, m⟩ n' j'

/-- The guard holds of a state, and has nothing against any statement that runs next. -/
structure Guard.Free (g : Guard) (m : Machine) : Prop where
  inv : g.Inv m
  own : g.own m.current
  stmt : ∀ t, g.stmt m.scopes m.current t

theorem Guard.Free.pre {m : Machine} (h : g.Free m) (site : Site) (program : Program) :
    g.Pre ⟨site, .program program .null, m⟩ :=
  ⟨h.inv, h.own, fun t _ => h.stmt t, held_of_data Value.madeOf_null⟩

theorem Guard.Free.since {m m' : Machine} (h : g.Free m) (hm : m.Since m') : g.Free m' := by
  induction hm with
  | refl => exact h
  | run _ site n program ih =>
    have hpost := (ih.pre site program).postOf n
    exact ⟨hpost.inv, hpost.onward.own ih.own, fun t => hpost.onward.stmt t (ih.stmt t)⟩
  | wait _ world ih => exact ⟨⟨ih.inv.state, ih.inv.place, ih.inv.held⟩, ih.own, ih.stmt⟩

theorem Guard.Free.follows {m : Machine} {site : Site} {program : Program} {n' : Nat}
    (h : g.Free m) (hb : Follows n ⟨site, .program program .null, m⟩ n' b) : g.Pre b := by
  rcases hb with hb | ⟨m', site', l, program', hm, hb⟩
  · exact (h.pre site program).nested hb
  · have hrun : m.Since (runProgram site n program .null m).2 := .run .refl site n program
    exact (((h.since hrun).since hm).pre site' program').nested hb

/-- The same over the rest of a session. -/
theorem Follows.pre_or_nested {n' n'' : Nat} (hb : Follows n j n'' b) (ha : Nested n j n' a)
    (hl : g.Lenient a.machine.scopes.size) (hj : ordered.Pre j) (hp : g.PostOf n' a)
    (hlt : a.machine.scopes.size < b.machine.scopes.size) : g.Pre b ∨ Nested n' a n'' b := by
  rcases hb with hb | ⟨m, site, l, program, hm, hb⟩
  · exact ha.pre_or_nested hb hl hj hp hlt
  · have hpost := ha.resume hl hj (Nat.le_refl _) hp
    have hfree : g.Free (j.final n) :=
      ⟨hpost.inv, hpost.onward.own (hl.own_here hj.inv ha.size_le),
        fun t => hpost.onward.stmt t (hl.stmt_here hj.inv ha.size_le t)⟩
    exact .inl (((hfree.since hm).pre site program).nested hb)

end

end MeowLang
