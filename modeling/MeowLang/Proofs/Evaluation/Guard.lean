import MeowLang.Proofs.Evaluation.Bracket
import MeowLang.Proofs.Evaluation.Nested
import MeowLang.Proofs.Value.Parts

/-! Guards: invariants of the scopes that every evaluation keeps. A guard says which values the
scopes may hold and which code may run where, and its laws look at one change of the scopes at
a time. What then holds of the whole evaluation is proved here once, for every guard. -/
namespace MeowLang

/-- The expressions that an expression evaluates in the scope it is evaluated in. -/
def Expr.parts : Expr → List Expr
  | .array items _ => items
  | .object entries _ => entries.flatMap fun entry => [entry.1, entry.2]
  | .prefixed _ e _ | .kindOf e _ => [e]
  | .between _ l r _ | .index l r _ => [l, r]
  | .cond test _ _ _ => [test]
  | .call callee args _ => callee :: args
  | _ => []

/-- The blocks that an expression runs in scopes inside the one it is evaluated in. -/
def Expr.blocks : Expr → List (List Stmt)
  | .cond _ yes no _ => yes :: no.toList
  | .loop body _ => [body]
  | _ => []

def Stmt.parts : Stmt → List Expr
  | .bind _ e _ | .rebind _ e _ | .expr e _ | .giveBack (some e) _ => [e]
  | _ => []

def Scope.BindsPrelude (scope : Scope) : Prop :=
  ∃ identity, scope.bindings = Library.instantiate identity Library.prelude

/-- An invariant of the scopes. -/
structure Guard where
  /-- What is kept true of the scopes. -/
  state : Scopes → Prop
  /-- The scopes that code may look names up from. -/
  place : Scopes → Nat → Prop
  /-- The scopes that statements may run in; new scopes are among them. -/
  own : Nat → Prop
  /-- The scopes whose values are watched. -/
  region : Nat → Prop
  /-- The values that may be held; their parts are asked about one by one. -/
  node : Scopes → Value → Prop
  /-- The expressions that may be evaluated in a scope and in those inside it. -/
  expr : Scopes → Nat → Expr → Prop
  /-- The statements that may run in a scope and in those inside it. -/
  stmt : Scopes → Nat → Stmt → Prop
  node_of_isData : ∀ {s v}, v.isData = true → node s v
  node_of_grows : ∀ {s s' v}, s.Grows s' → node s v → node s' v
  place_of_grows : ∀ {s s' c}, s.Grows s' → place s c → place s' c
  expr_of_grows : ∀ {s s' c e}, s.Grows s' → expr s c e → expr s' c e
  stmt_of_grows : ∀ {s s' c t}, s.Grows s' → stmt s c t → stmt s' c t
  region_of_mem_chain : ∀ {s c i}, place s c → i ∈ s.chain c → region i
  expr_part : ∀ {s c e d}, expr s c e → d ∈ e.parts → expr s c d
  expr_block : ∀ {s c e b t}, expr s c e → b ∈ e.blocks → t ∈ b → stmt s c t
  stmt_part : ∀ {s c t e}, stmt s c t → e ∈ t.parts → expr s c e
  stmt_inner : ∀ {s c d t}, stmt s c t → s.outer? d = some c → own d → stmt s d t
  closure : ∀ {s c params body line}, place s c → expr s c (.function params body line) →
    ∀ identity, node s (.function ⟨identity, params, body, c⟩)
  place_of_closure : ∀ {s f}, node s (.function f) → place s f.scope
  stmt_of_closure : ∀ {s f t}, node s (.function f) → t ∈ f.body → stmt s f.scope t
  state_push : ∀ {s scope}, state s → (∀ o, scope.outer = some o → place s o) →
    (scope.outer = none → scope.BindsPrelude) → state (s.push scope)
  place_push : ∀ {s scope}, state s → (∀ o, scope.outer = some o → place s o) →
    place (s.push scope) s.size
  own_size : ∀ {s}, state s → own s.size
  state_bind : ∀ {s c x e line v}, state s → own c → stmt s c (.bind x e line) →
    state (s.set c x v)
  state_rebind : ∀ {s c x e line i v}, state s → stmt s c (.rebind x e line) →
    s.holder? c x = some i → state (s.set i x v)

/-- The guard lets the program of a text run in the scopes that a library starts in. -/
def Guard.Admits (g : Guard) (source : String) : Prop :=
  ∀ {s prelude names parsed t}, g.state s → Parsed.ofSource source = .ok parsed →
    parsed.errors = [] → t ∈ parsed.program →
    g.stmt ((s.push ⟨prelude, none⟩).push ⟨names, some s.size⟩) (s.size + 1) t

/-- A guard that lets the program of every text run. -/
structure Guard.Open extends Guard where
  stmt_of_library : ∀ {s prelude names source parsed t}, state s →
    Parsed.ofSource source = .ok parsed → parsed.errors = [] → t ∈ parsed.program →
    stmt ((s.push ⟨prelude, none⟩).push ⟨names, some s.size⟩) (s.size + 1) t

theorem Guard.Open.admits (g : Guard.Open) (source : String) : g.Admits source :=
  g.stmt_of_library

namespace Guard

variable {α β : Type} (g : Guard) {m m' : Machine} {s s' : Scopes} {v : Value}

/-! ### Values -/

def Held (s : Scopes) (v : Value) : Prop := ∀ u : Value, u.Within v → g.node s u

def HeldAll (s : Scopes) (vs : List Value) : Prop := ∀ v ∈ vs, g.Held s v

def HeldIn (s : Scopes) (entries : List (α × Value)) : Prop := ∀ p ∈ entries, g.Held s p.2

variable {g}

theorem Held.grows (h : g.Held s v) (hg : s.Grows s') : g.Held s' v :=
  fun u hu => g.node_of_grows hg (h u hu)

theorem HeldIn.grows {entries : List (α × Value)} (h : g.HeldIn s entries) (hg : s.Grows s') :
    g.HeldIn s' entries := fun p hp => (h p hp).grows hg

theorem held_of_madeOf {sources : List Value} (h : v.MadeOf sources) (hs : g.HeldAll s sources) :
    g.Held s v := by
  intro u hu
  rcases h u hu with hd | ⟨w, hw, hu⟩
  · exact g.node_of_isData hd
  · exact hs w hw u hu

/-- A value made of nothing is data. -/
theorem held_of_data (h : v.MadeOf []) : g.Held s v := held_of_madeOf h fun _ hw => nomatch hw

theorem held_array {items : List Value} (h : g.HeldAll s items) : g.Held s (.array items) :=
  held_of_madeOf (Value.madeOf_array fun _ hw => Value.madeOf_of_mem hw) h

theorem held_map {entries : List (Key × Value)} (h : g.HeldIn s entries) :
    g.Held s (.map entries) := by
  intro u hu
  cases hu with
  | refl => exact g.node_of_isData rfl
  | entry mem inner => exact h _ mem u inner

theorem held_function {f : Closure} (h : g.node s (.function f)) : g.Held s (.function f) := by
  intro u hu
  cases hu
  exact h

theorem heldIn_insert [BEq α] {entries : List (α × Value)} {k : α} (hv : g.Held s v)
    (h : g.HeldIn s entries) : g.HeldIn s (Assoc.insert k v entries) := by
  intro p hp
  rcases Assoc.mem_insert hp with rfl | hp
  · exact hv
  · exact h p hp

theorem heldIn_insertAll {new : List (String × Value)} (h : g.HeldIn s new) :
    g.HeldIn s (Assoc.insertAll new []) := by
  intro p hp
  rcases Assoc.mem_insertAll hp with hp | hp
  · exact h p hp
  · cases hp

theorem heldIn_zip {names : List String} {vs : List Value} (h : g.HeldAll s vs) :
    g.HeldIn s (names.zip vs) := fun _ hp => h _ (List.of_mem_zip hp).2

theorem heldIn_instantiate (fresh : Nat) (exports : List (String × Export)) :
    g.HeldIn s (Library.instantiate fresh exports) := by
  induction exports generalizing fresh with
  | nil => exact fun _ hp => nomatch hp
  | cons e rest ih =>
    obtain ⟨name, f | x⟩ := e
    all_goals
      intro p hp
      rcases List.mem_cons.mp hp with rfl | hp
      · exact held_of_data fun u hu => by cases hu; exact .inl rfl
      · exact ih _ p hp

/-! ### States -/

variable (g)

/-- The guard holds of a state: of its scopes, of the scope it is in, and of all it holds. -/
structure Inv (m : Machine) : Prop where
  state : g.state m.scopes
  place : g.place m.scopes m.current
  held : ∀ i, g.region i → g.HeldIn m.scopes (m.scopes.bindings i)

/-- Statements that may run in the first state may run in the second. -/
structure Onward (m m' : Machine) : Prop where
  own : g.own m.current → g.own m'.current
  stmt : ∀ t, g.stmt m.scopes m.current t → g.stmt m'.scopes m'.current t

/-- An outcome holds nothing that the guard forbids; `H` says what that means for a result. -/
def Fine (H : Scopes → α → Prop) (s : Scopes) : Outcome α → Prop
  | .value a => H s a
  | .signal (.returned v) => g.Held s v
  | _ => True

/-- What is known after an evaluation that began in `m`. -/
structure Post (H : Scopes → α → Prop) (m : Machine) (p : Outcome α × Machine) : Prop where
  inv : g.Inv p.2
  onward : g.Onward m p.2
  fine : g.Fine H p.2.scopes p.1

variable {g}

theorem Onward.trans {m'' : Machine} (h : g.Onward m m') (h' : g.Onward m' m'') :
    g.Onward m m'' := ⟨h'.own ∘ h.own, fun t ht => h'.stmt t (h.stmt t ht)⟩

theorem onward_of_returns (h : m.Returns m') : g.Onward m m' where
  own := h.current_eq ▸ id
  stmt _ ht := h.current_eq ▸ g.stmt_of_grows h.grows ht

theorem Inv.held_lookup {x : String} (h : g.Inv m) (hx : m.scopes.get? m.current x = some v) :
    g.Held m.scopes v := by
  obtain ⟨i, hi, k, hk⟩ := Scopes.exists_mem_of_get? hx
  exact h.held i (g.region_of_mem_chain h.place hi) _ hk

theorem Inv.held_exports {stop : Nat} (h : g.Inv m) :
    g.HeldIn m.scopes (m.scopes.exports m.current stop) := by
  intro p hp
  obtain ⟨i, hi, hb⟩ := Scopes.exists_mem_of_mem_exports hp
  exact h.held i (g.region_of_mem_chain h.place hi) p hb

/-- A scope is made, and the state stays in the scope it is in. -/
theorem Inv.push {scope : Scope} (h : g.Inv m) (hs : g.state (m.scopes.push scope))
    (hb : g.HeldIn m.scopes scope.bindings) :
    g.Inv { m with scopes := m.scopes.push scope } where
  state := hs
  place := g.place_of_grows (m.scopes.grows_push scope) h.place
  held i hi p hp := by
    have hg := m.scopes.grows_push scope
    rcases Scopes.mem_bindings_push hp with hp | hp
    · exact (h.held i hi p hp).grows hg
    · exact (hb p hp).grows hg

theorem Inv.enter {scope : Scope} (h : g.Inv m)
    (ho : ∀ o, scope.outer = some o → g.place m.scopes o)
    (hroot : scope.outer = none → scope.BindsPrelude)
    (hb : g.HeldIn m.scopes scope.bindings) : g.Inv (m.enter scope) where
  state := g.state_push h.state ho hroot
  place := g.place_push h.state ho
  held := (h.push (g.state_push h.state ho hroot) hb).held

theorem Inv.enter_inside {scope : Scope} (h : g.Inv m) (ho : scope.outer = some m.current)
    (hb : g.HeldIn m.scopes scope.bindings) : g.Inv (m.enter scope) := by
  refine h.enter (fun o hs => ?_) (fun hs => ?_) hb
  · cases ho.symm.trans hs
    exact h.place
  · cases ho.symm.trans hs

theorem Inv.set {i : Nat} {x : String} (h : g.Inv m) (hs : g.state (m.scopes.set i x v))
    (hv : g.Held m.scopes v) : g.Inv { m with scopes := m.scopes.set i x v } where
  state := hs
  place := g.place_of_grows (m.scopes.grows_set i x v) h.place
  held j hj p hp := by
    have hg := m.scopes.grows_set i x v
    rcases Scopes.mem_bindings_set hp with hp | rfl
    · exact (h.held j hj p hp).grows hg
    · exact hv.grows hg

/-- Back in the scope of an earlier state. -/
theorem Inv.back (h : g.Inv m') (hm : g.place m.scopes m.current) (hg : m.scopes.Grows m'.scopes)
    (loading : List String) : g.Inv { m' with current := m.current, loading := loading } :=
  ⟨h.state, g.place_of_grows hg hm, h.held⟩

/-- What may run in a scope may run in a new one inside it. -/
theorem Inv.stmt_enter {scope : Scope} {c : Nat} {t : Stmt} (h : g.Inv m)
    (ht : g.stmt m.scopes c t) (ho : scope.outer = some c) :
    g.stmt (m.enter scope).scopes (m.enter scope).current t := by
  have hi : (m.scopes.push scope).outer? m.scopes.size = some c := by
    rw [Scopes.outer?_push_self, ho]
  exact g.stmt_inner (g.stmt_of_grows (m.scopes.grows_push scope) ht) hi (g.own_size h.state)

/-! ### Steps of an evaluation -/

variable {H : Scopes → α → Prop} {K : Scopes → β → Prop}

/-- A step that touches neither the scopes nor where it is. -/
theorem post_here {r : Outcome α} (h : g.Inv m) (hf : g.Fine H m.scopes r)
    (hs : m'.scopes = m.scopes) (hc : m'.current = m.current) : g.Post H m (r, m') := by
  refine ⟨⟨?_, ?_, ?_⟩, ⟨?_, ?_⟩, ?_⟩
  all_goals simp only [hs, hc]
  · exact h.state
  · exact h.place
  · exact h.held
  · exact id
  · exact fun _ => id
  · exact hf

theorem post_pure {a : α} (h : g.Inv m) (ha : H m.scopes a) :
    g.Post H m ((pure a : Eval α) m) := post_here h ha rfl rfl

theorem post_fail (h : g.Inv m) (site : Site) (line : Int) (cause : Cause) :
    g.Post H m ((Eval.fail site line cause : Eval α) m) := post_here h trivial rfl rfl

theorem post_exhausted (h : g.Inv m) : g.Post H m ((Eval.exhausted : Eval α) m) :=
  post_here h trivial rfl rfl

theorem post_ofExcept {r : Except Cause α} (h : g.Inv m) (site : Site) (line : Int)
    (hr : ∀ a, r = .ok a → H m.scopes a) : g.Post H m (Eval.ofExcept site line r m) := by
  cases r with
  | ok a => exact post_pure h (hr a rfl)
  | error cause => exact post_fail h site line cause

theorem Post.of_value {p : Outcome α × Machine} {a : α} (h : g.Post H m p)
    (done : p = (.value a, m')) : g.Inv m' ∧ H m'.scopes a ∧ g.Onward m m' := by
  subst done
  exact ⟨h.inv, h.fine, h.onward⟩

theorem post_bind {p : Eval α} {f : α → Eval β} (hp : g.Post H m (p m))
    (hf : ∀ a m', p m = (.value a, m') → g.Inv m' → H m'.scopes a → g.Post K m' (f a m')) :
    g.Post K m ((p >>= f) m) := by
  obtain ⟨hi, ho, hr⟩ := hp
  rw [Eval.bind_apply]
  cases hpm : p m with
  | mk r m' =>
    rw [hpm] at hi ho hr
    cases r with
    | value a =>
      obtain ⟨hi', ho', hr'⟩ := hf a m' hpm hi hr
      exact ⟨hi', ho.trans ho', hr'⟩
    | signal t =>
      refine ⟨hi, ho, ?_⟩
      cases t <;> exact hr
    | halted h => exact ⟨hi, ho, trivial⟩
    | exhausted => exact ⟨hi, ho, trivial⟩

/-- What runs in a scope of its own is followed by the way back. -/
theorem post_within {scope : Scope} {p : Eval α} (h : g.place m.scopes m.current)
    (hk : Eval.Moves Machine.Keeps p)
    (hp : g.Post H (m.enter scope) (p (m.enter scope))) :
    g.Post H m (Eval.within scope p m) := by
  have hr := Eval.returns_within scope hk m
  have hg : m.scopes.Grows (p (m.enter scope)).2.scopes := hr.grows
  exact ⟨hp.inv.back h hg _, onward_of_returns hr, hp.fine⟩

theorem post_callNative {f : Native} {args : List Value} (h : g.Inv m)
    (ha : g.HeldAll m.scopes args) (site : Site) (line : Int) :
    g.Post g.Held m (Eval.callNative site line f args m) := by
  have hans := Native.answers_call f args m.world
  simp only [Eval.callNative]
  split
  · exact post_here h trivial rfl rfl
  · rename_i r w _ heq
    rw [heq] at hans
    refine post_here h ?_ rfl rfl
    cases hans with
    | value made => exact held_of_madeOf made ha
    | fault cause => trivial
    | halt h => trivial

theorem post_layer {exports : List (String × Value)} (h : g.Inv m)
    (he : g.HeldIn m.scopes exports) : g.Post (fun _ _ => True) m (Eval.layer exports m) where
  inv := h.enter_inside rfl (heldIn_insertAll he)
  onward := ⟨fun _ => g.own_size h.state, fun _ ht => h.stmt_enter ht rfl⟩
  fine := trivial

end Guard

end MeowLang
