import MeowLang.Proofs.Evaluation.Stops

/-! Results that do not depend on the bound. An evaluation comes to its end with a result if it has
this result for every bound from some bound on; then the evaluation around it goes on from there, and
what it starts then is evaluated inside it. -/
namespace MeowLang

variable {α β : Type}

/-- From some bound on, the result is `a`. -/
def Settles (f : Nat → α) (a : α) : Prop := ∃ k, ∀ n, k ≤ n → f n = a

namespace Settles

variable {f : Nat → α} {F : Nat → β} {a : α} {b : β}

theorem const (a : α) : Settles (fun _ => a) a := ⟨0, fun _ _ => rfl⟩

theorem succ (h : Settles (fun n => f (n + 1)) a) : Settles f a := by
  obtain ⟨k, hk⟩ := h
  refine ⟨k + 1, fun n hn => ?_⟩
  obtain ⟨n, rfl⟩ := Nat.exists_eq_add_of_le' (Nat.le_of_add_left_le hn)
  exact hk n (by omega)

theorem of_succ (h : ∀ n, f (n + 1) = a) : Settles f a := succ ⟨0, fun n _ => h n⟩

/-- After a part that settles, an evaluation goes on like one that settles. -/
theorem step {g : Nat → β} (hf : Settles f a) (hF : ∀ n, f n = a → F (n + 1) = g n)
    (hg : Settles g b) : Settles F b := by
  obtain ⟨k, hk⟩ := hf
  obtain ⟨l, hl⟩ := hg
  refine succ ⟨max k l, fun n hn => ?_⟩
  exact (hF n (hk n (by omega))).trans (hl n (by omega))

/-- After a part that settles, an evaluation is over. -/
theorem last (hf : Settles f a) (hF : ∀ n, f n = a → F (n + 1) = b) : Settles F b :=
  hf.step hF (const b)

theorem map (h : Settles f a) (g : α → β) : Settles (fun n => g (f n)) (g a) := by
  obtain ⟨k, hk⟩ := h
  exact ⟨k, fun n hn => congrArg g (hk n hn)⟩

theorem exists_eq (h : Settles f a) : ∃ n, f n = a := by
  obtain ⟨k, hk⟩ := h
  exact ⟨k, hk k (Nat.le_refl k)⟩

theorem unique {a' : α} (h : Settles f a) (h' : Settles f a') : a = a' := by
  obtain ⟨k, hk⟩ := h
  obtain ⟨l, hl⟩ := h'
  exact (hk (max k l) (Nat.le_max_left k l)).symm.trans (hl (max k l) (Nat.le_max_right k l))

end Settles

/-! ### Evaluations -/

def Stop.outcome {α : Type} : Stop → Outcome α
  | fault f => .signal (.failed f)
  | halt h => .halted h

namespace Settles

variable {p : Nat → Eval α} {q : Nat → α → Eval β} {a : α} {m m' : Machine}

theorem bind {r : Outcome β × Machine} (hp : Settles (fun n => p n m) (.value a, m'))
    (hq : Settles (fun n => q n a m') r) : Settles (fun n => (p n >>= q n) m) r := by
  obtain ⟨k, hk⟩ := hp
  obtain ⟨l, hl⟩ := hq
  refine ⟨max k l, fun n hn => ?_⟩
  simp only [Eval.bind_apply, hk n (by omega)]
  exact hl n (by omega)

theorem bind_signal {t : Signal} (hp : Settles (fun n => p n m) (.signal t, m')) :
    Settles (fun n => (p n >>= q n) m) (.signal t, m') := by
  obtain ⟨k, hk⟩ := hp
  refine ⟨k, fun n hn => ?_⟩
  simp only [Eval.bind_apply, hk n hn]

theorem bind_stop {stop : Stop} (hp : Settles (fun n => p n m) (stop.outcome, m')) :
    Settles (fun n => (p n >>= q n) m) (stop.outcome, m') := by
  cases stop with
  | fault f => exact hp.bind_signal
  | halt h =>
    obtain ⟨k, hk⟩ := hp
    refine ⟨k, fun n hn => ?_⟩
    simp only [Eval.bind_apply, hk n hn]
    rfl

theorem within {r : Outcome α} {scope : Scope}
    (h : Settles (fun n => p n (m.enter scope)) (r, m')) :
    Settles (fun n => Eval.within scope (p n) m) (r, { m' with current := m.current }) :=
  h.map fun z => (z.1, { z.2 with current := m.current })

end Settles

section
variable {site : Site} {line : Int} {e callee : Expr} {es args : List Expr} {s : Stmt}
  {ss : List Stmt} {f v last : Value} {vs : List Value} {m m' m'' : Machine}
  {r : Outcome Value × Machine}

theorem settles_ident {x : String} (h : m.scopes.get? m.current x = some v) :
    Settles (fun n => evalExpr site n (.ident x line) m) (.value v, m) :=
  .of_succ fun n => by simp only [evalExpr, Eval.bind_apply, Eval.lookup, h]; rfl

theorem settles_all_nil : Settles (fun n => evalAll site n [] m) (.value [], m) :=
  .of_succ fun _ => rfl

theorem settles_all_cons (he : Settles (fun n => evalExpr site n e m) (.value v, m'))
    (hes : Settles (fun n => evalAll site n es m') (.value vs, m'')) :
    Settles (fun n => evalAll site n (e :: es) m) (.value (v :: vs), m'') :=
  .succ (he.bind (hes.bind (.const _)))

theorem settles_call (hf : Settles (fun n => evalExpr site n callee m) (.value f, m'))
    (hargs : Settles (fun n => evalAll site n args m') (.value vs, m''))
    (happly : Settles (fun n => apply site n f vs line m'') r) :
    Settles (fun n => evalExpr site n (.call callee args line) m) r :=
  .succ (hf.bind (hargs.bind happly))

theorem settles_block_nil : Settles (fun n => execAll site n [] last m) (.value last, m) :=
  .of_succ fun _ => rfl

theorem settles_block_cons (hs : Settles (fun n => exec site n s m) (.value v, m'))
    (hss : Settles (fun n => execAll site n ss v m') r) :
    Settles (fun n => execAll site n (s :: ss) last m) r := .succ (hs.bind hss)

/-- The last statement of a block. -/
theorem settles_block_last {r : Outcome Value} (hs : Settles (fun n => exec site n s m) (r, m')) :
    Settles (fun n => execAll site n [s] last m) (r, m') := by
  cases r with
  | value v => exact settles_block_cons hs settles_block_nil
  | signal t => exact .succ hs.bind_signal
  | halted h =>
    have hstop : Settles (fun n => exec site n s m) ((Stop.halt h).outcome, m') := hs
    exact .succ hstop.bind_stop
  | exhausted =>
    refine .succ (hs.imp fun k hk n hn => ?_)
    simp only [execAll, Eval.bind_apply, hk n hn]

theorem settles_expr (h : Settles (fun n => evalExpr site n e m) r) :
    Settles (fun n => exec site n (.expr e line) m) r := .succ h

theorem settles_bind {x : String} (h : Settles (fun n => evalExpr site n e m) (.value v, m')) :
    Settles (fun n => exec site n (.bind x e line) m)
      (.value .null, { m' with scopes := m'.scopes.set m'.current x v }) :=
  .succ (h.bind (.const _))

theorem settles_native {g : Native} {identity : Nat} :
    Settles (fun n => apply site n (.native g identity) vs line m)
      (Eval.callNative site line g vs m) := .of_succ fun _ => rfl

/-- What a call makes of the end of its function's body. -/
def closeCall (site : Site) (line : Int) : Outcome Value × Machine → Outcome Value × Machine
  | (.signal (.returned v), m) => (.value v, m)
  | (.signal (.control c), m) => Eval.fail site line (.strayControl c) m
  | r => r

theorem settles_function {g : Closure} {r : Outcome Value} (arity : vs.length = g.params.length)
    (h : Settles (fun n => execAll site n g.body .null
      (m.enter ⟨Assoc.insertAll (g.params.zip vs) [], some g.scope⟩)) (r, m')) :
    Settles (fun n => apply site n (.function g) vs line m)
      (closeCall site line (r, { m' with current := m.current })) := by
  apply Settles.succ
  simp only [apply_function_of_eq _ _ _ _ _ _ arity]
  exact h.within.map (closeCall site line)

end

/-! ### Evaluations inside others -/

/-- With every bound that is large enough, the second job is evaluated in the course of the first
one. -/
def Job.Evaluates (j j' : Job) : Prop := ∃ depth k, ∀ n, k ≤ n → Nested (n + depth) j n j'

namespace Job.Evaluates

variable {j j' j'' : Job}

theorem trans (h : j.Evaluates j') (h' : j'.Evaluates j'') : j.Evaluates j'' := by
  obtain ⟨depth, k, hk⟩ := h
  obtain ⟨depth', l, hl⟩ := h'
  refine ⟨depth' + depth, max k l, fun n hn => ?_⟩
  rw [← Nat.add_assoc]
  exact (hk (n + depth') (by omega)).trans (hl n (by omega))

theorem of_starts (h : ∀ n, Starts n j j') : j.Evaluates j' :=
  ⟨1, 0, fun n _ => .step (h n) (.refl _ _)⟩

/-- Once a part has settled, a job starts the next one. -/
theorem of_settles {f : Nat → α} {a : α} (hf : Settles f a) (h : ∀ n, f n = a → Starts n j j') :
    j.Evaluates j' := by
  obtain ⟨k, hk⟩ := hf
  exact ⟨1, k, fun n hn => .step (h n (hk n hn)) (.refl _ _)⟩

theorem call {site : Site} {callee : Expr} {args : List Expr} {line : Int} {f : Value}
    {vs : List Value} {m m' m'' : Machine}
    (hf : Settles (fun n => evalExpr site n callee m) (.value f, m'))
    (hargs : Settles (fun n => evalAll site n args m') (.value vs, m'')) :
    Evaluates ⟨site, .expr (.call callee args line), m⟩ ⟨site, .call f vs line, m''⟩ := by
  obtain ⟨k, hk⟩ := hf
  obtain ⟨l, hl⟩ := hargs
  exact ⟨1, max k l, fun n hn =>
    .step (.call (hk n (by omega)) (hl n (by omega))) (.refl _ _)⟩

end Job.Evaluates

end MeowLang
