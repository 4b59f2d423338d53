import MeowLang.Proofs.Evaluation.Discipline
import MeowLang.Proofs.Evaluation.Resume
import MeowLang.Proofs.Scope.Resolution

/-! The scopes of a session are well founded. Each is younger than the one around it, and the ones
around which there is none are preludes; so from every scope, also from one that only a function
still holds, the way outward comes to a prelude. Nothing ever changes such a way. The walks that
look for a name or collect exports go along it, and so they end. -/
namespace MeowLang

namespace Scopes

variable {s s' : Scopes} {b c i o : Nat} {x : String} {v : Value}

/-! ### Preludes -/

/-- Scope `r` stands in no other, and binds the names of the prelude. -/
structure IsPrelude (s : Scopes) (r : Nat) : Prop where
  made : r < s.size
  outermost : s.outer? r = none
  names : (s.bindings r).map Prod.fst = Library.prelude.map Prod.fst

/-- Every outermost scope is a prelude. -/
def Grounded (s : Scopes) : Prop := ∀ r < s.size, s.outer? r = none → s.IsPrelude r

def Inside (s : Scopes) (c : Nat) : Prop := ∃ o, s.outer? c = some o

theorem Inside.lt_size (h : s.Inside c) : c < s.size := by
  obtain ⟨o, ho⟩ := h
  exact lt_of_outer? ho

theorem Inside.grows (h : s.Inside c) (hg : s.Grows s') : s'.Inside c := by
  obtain ⟨o, ho⟩ := h
  exact ⟨o, (hg.outer_eq c (lt_of_outer? ho)).trans ho⟩

theorem grounded_empty : Scopes.empty.Grounded := fun r hr => absurd hr (Nat.not_lt_zero r)

theorem Grounded.push (h : s.Grounded) {scope : Scope}
    (hroot : scope.outer = none → scope.BindsPrelude) : (s.push scope).Grounded := by
  intro r hr ho
  rw [size_push] at hr
  refine ⟨by rwa [size_push], ho, ?_⟩
  rcases Nat.lt_succ_iff_lt_or_eq.mp hr with hr | rfl
  · rw [outer?_push_of_lt hr] at ho
    rw [bindings_push_of_lt hr, (h r hr ho).names]
  · rw [outer?_push_self] at ho
    obtain ⟨identity, hbindings⟩ := hroot ho
    rw [bindings_push_self, hbindings, Library.keys_instantiate]

/-- A change of the bindings that leaves preludes their names. -/
theorem Grounded.set (h : s.Grounded) (hkeys : ∀ r, s.outer? r = none →
    ((s.set i x v).bindings r).map Prod.fst = (s.bindings r).map Prod.fst) :
    (s.set i x v).Grounded := by
  intro r hr ho
  rw [size_set] at hr
  rw [outer?_set] at ho
  exact ⟨by rwa [size_set], by rwa [outer?_set], (hkeys r ho).trans (h r hr ho).names⟩

theorem Grounded.set_inside (h : s.Grounded) (hc : s.Inside c) : (s.set c x v).Grounded := by
  refine h.set fun r hr => ?_
  obtain ⟨o, ho⟩ := hc
  have hne : r ≠ c := by
    rintro rfl
    rw [ho] at hr
    cases hr
  rw [bindings_set_of_ne hne]

theorem Grounded.exists_prelude (h : s.Grounded) (hs : s.Ordered) (hi : i < s.size) :
    ∃ r, s.Outward i r ∧ s.IsPrelude r := by
  induction i using hs.acyclic.induction with
  | root i ho => exact ⟨i, .refl, h i hi ho⟩
  | inner i o ho ih =>
    obtain ⟨r, hr, hprelude⟩ := ih (Nat.lt_trans (hs i o ho) hi)
    exact ⟨r, .head ho hr, hprelude⟩

/-! ### Growth -/

theorem Outward.grows (h : s.Outward c i) (hg : s.Grows s') : s'.Outward c i := by
  induction h with
  | refl => exact .refl
  | tail _ hstep ih => exact ih.tail ((hg.outer_eq _ (lt_of_outer? hstep)).trans hstep)

theorem IsPrelude.grows (h : s.IsPrelude b) (hg : s.Grows s') (hs : s'.Grounded) :
    s'.IsPrelude b :=
  hs b (hg.lt_size h.made) ((hg.outer_eq b h.made).trans h.outermost)

theorem Layered.outward {size old k : Nat} (h : s.Layered size old k c) : s.Outward c old := by
  induction h with
  | bare => exact .refl
  | layer _ outer _ _ ih => exact .head outer ih

/-- The two scopes that a program starts in. -/
theorem outer?_push_push (s : Scopes) (prelude names : List (String × Value)) :
    ((s.push ⟨prelude, none⟩).push ⟨names, some s.size⟩).outer? (s.size + 1) = some s.size := by
  rw [← size_push s ⟨prelude, none⟩, outer?_push_self]

/-! ### Walks -/

/-- A walk outward from the first scope passes through those of the list and ends at the last one:
it goes on from scope to scope until `stop` holds or there is no scope around. -/
inductive Walk (s : Scopes) (stop : Nat → Prop) : Nat → List Nat → Nat → Prop
  | stopped {c : Nat} (here : stop c) : Walk s stop c [c] c
  | ended {c : Nat} (past : ¬ stop c) (outermost : s.outer? c = none) : Walk s stop c [c] c
  | outward {c o last : Nat} {path : List Nat} (past : ¬ stop c) (outer : s.outer? c = some o)
      (rest : Walk s stop o path last) : Walk s stop c (c :: path) last

/-- Numbers fall along a walk, so it ends. -/
theorem Ordered.exists_walk (h : s.Ordered) (stop : Nat → Prop) (c : Nat) :
    ∃ path last, s.Walk stop c path last ∧ path.length ≤ c + 1 := by
  induction c using Nat.strongRecOn with
  | ind c ih =>
    by_cases hc : stop c
    · exact ⟨[c], c, .stopped hc, Nat.succ_le_succ (Nat.zero_le c)⟩
    · cases ho : s.outer? c with
      | none => exact ⟨[c], c, .ended hc ho, Nat.succ_le_succ (Nat.zero_le c)⟩
      | some o =>
        have hlt := h c o ho
        obtain ⟨path, last, hwalk, hlength⟩ := ih o hlt
        exact ⟨c :: path, last, .outward hc ho hwalk, by rw [List.length_cons]; omega⟩

section
variable {path : List Nat} {last : Nat}

/-- Looking a name up finds what the last scope of the walk binds it to. -/
theorem Acyclic.get?_of_walk (h : s.Acyclic) (hwalk : s.Walk (s.Binds · x) c path last) :
    s.get? c x = (s.bindings last).lookup x := by
  induction hwalk with
  | stopped here =>
    obtain ⟨v, hv⟩ := Assoc.exists_lookup here
    rw [hv, get?_of_lookup hv]
  | ended _ outermost => exact get?_of_root outermost x
  | outward past outer _ ih => rw [h.get?_of_not_binds outer past, ih]

/-- A new value goes to the last scope of the walk, if that one binds the name. -/
theorem Acyclic.reassign?_of_walk (h : s.Acyclic) (hwalk : s.Walk (s.Binds · x) c path last) :
    s.reassign? c x v = if s.Binds last x then some (s.set last x v) else none := by
  have holder : s.holder? c x = if s.Binds last x then some last else none := by
    induction hwalk with
    | stopped here => rw [holder?_of_binds here, if_pos here]
    | ended past outermost =>
      rw [if_neg past]
      refine holder?_eq_none fun i hi => ?_
      rwa [(outward_of_root_iff outermost).mp hi]
    | outward past outer _ ih => rw [h.holder?_of_outer outer past, ih]
  rw [reassign?, holder]
  by_cases hlast : s.Binds last x
  · simp only [if_pos hlast]
  · simp only [if_neg hlast]

/-- Exports are collected from the scopes that the walk passes through. -/
theorem Acyclic.upTo_of_walk {stop : Nat} (h : s.Acyclic) (hwalk : s.Walk (· = stop) c path last) :
    upTo stop (s.chain c) = path := by
  induction hwalk with
  | @stopped c here =>
    subst here
    cases ho : s.outer? c with
    | none => simp [chain_of_root ho, upTo]
    | some o => simp [h.chain_of_outer ho, upTo]
  | ended past outermost => simp [chain_of_root outermost, upTo]
  | outward past outer _ ih => simp [h.chain_of_outer outer, upTo, past, ih]

end

/-- From every scope the walks end that look a name up, give it a new value and collect exports. -/
structure WalksEnd (s : Scopes) : Prop where
  name : ∀ c x, ∃ path last, s.Walk (s.Binds · x) c path last ∧ path.length ≤ c + 1 ∧
    s.get? c x = (s.bindings last).lookup x ∧
    ∀ v, s.reassign? c x v = if s.Binds last x then some (s.set last x v) else none
  exports : ∀ c stop, ∃ path last, s.Walk (· = stop) c path last ∧ path.length ≤ c + 1 ∧
    s.exports c stop = path.foldr (fun i found => Assoc.insertAll (s.bindings i) found) []

theorem Ordered.walksEnd (h : s.Ordered) : s.WalksEnd where
  name c x := by
    obtain ⟨path, last, hwalk, hlength⟩ := h.exists_walk (s.Binds · x) c
    exact ⟨path, last, hwalk, hlength, h.acyclic.get?_of_walk hwalk,
      fun v => h.acyclic.reassign?_of_walk hwalk⟩
  exports c stop := by
    obtain ⟨path, last, hwalk, hlength⟩ := h.exists_walk (· = stop) c
    exact ⟨path, last, hwalk, hlength, by rw [Scopes.exports, h.acyclic.upTo_of_walk hwalk]⟩

end Scopes

/-! ### Every state is grounded -/

/-- Scopes are ordered and stand on preludes, and whatever code there is runs inside them. -/
def Guard.grounded : Guard.Open where
  state s := s.Ordered ∧ s.Grounded
  place s c := c < s.size
  own _ := True
  region _ := True
  node s v := ∀ f, v = .function f → s.Inside f.scope
  expr s c _ := s.Inside c
  stmt s c _ := s.Inside c
  node_of_isData h := by
    rintro f rfl
    cases h
  node_of_grows hg h f hf := (h f hf).grows hg
  place_of_grows hg h := hg.lt_size h
  expr_of_grows hg h := h.grows hg
  stmt_of_grows hg h := h.grows hg
  region_of_mem_chain _ _ := trivial
  expr_part h _ := h
  expr_block h _ _ := h
  stmt_part h _ := h
  stmt_inner _ ho _ := ⟨_, ho⟩
  closure _ h _ := by
    rintro f ⟨⟩
    exact h
  place_of_closure h := (h _ rfl).lt_size
  stmt_of_closure h _ := h _ rfl
  state_push h ho hroot := ⟨h.1.push ho, h.2.push hroot⟩
  place_push {s scope} _ _ := by
    rw [Scopes.size_push]
    exact Nat.lt_succ_self _
  own_size _ := trivial
  stmt_of_library {s prelude names source parsed t} _ _ _ _ :=
    ⟨s.size, s.outer?_push_push prelude names⟩
  state_bind h _ hc := ⟨h.1.set _ _ _, h.2.set_inside hc⟩
  state_rebind h _ hx := ⟨h.1.set _ _ _, h.2.set fun r _ =>
    Scopes.keys_bindings_set_of_mem (Scopes.mem_keys_of_holder? hx) r⟩

open Guard

variable {m m' : Machine}

/-- A machine whose scopes are grounded, and that is inside one of them. -/
theorem Guard.grounded_free (hi : grounded.Inv m) (hc : m.scopes.Inside m.current) :
    grounded.Free m := ⟨hi, trivial, fun _ => hc⟩

theorem Guard.grounded_start (world : World) : grounded.Free (.start world) := by
  have prelude : (Scopes.empty.push ⟨Library.instantiate 0 Library.prelude, none⟩).Grounded :=
    Scopes.grounded_empty.push fun _ => ⟨0, rfl⟩
  have roots : (Machine.start world).scopes.Grounded := prelude.push (by simp)
  exact grounded_free ⟨⟨(ordered_start world).state, roots⟩, Nat.lt_succ_self 1,
    fun i _ => held_start world i⟩ ⟨0, rfl⟩

theorem Machine.Rests.since (h : m.Rests) : ∃ world, (Machine.start world).Since m := by
  induction h with
  | start world => exact ⟨world, .refl⟩
  | run _ site n program ih => exact ih.imp fun _ hm => hm.run site n program
  | wait _ world ih => exact ih.imp fun _ hm => hm.wait world

theorem Machine.Rests.grounded (h : m.Rests) : grounded.Free m := by
  obtain ⟨world, hm⟩ := h.since
  exact (grounded_start world).since hm

theorem Machine.Reached.grounded (h : m.Reached) : grounded.Inv m :=
  h.inv fun _ hrest => hrest.grounded.pre

/-- Every scope is younger than the one around it, and from every scope that is there the way
outward comes to a prelude. The current scope is there, and so are the scopes of all functions that
are held at any depth. -/
structure Machine.Founded (m : Machine) : Prop where
  outer_lt : ∀ i o, m.scopes.outer? i = some o → o < i
  exists_prelude : ∀ i < m.scopes.size, ∃ r, m.scopes.Outward i r ∧ m.scopes.IsPrelude r
  current_lt : m.current < m.scopes.size
  captured_lt : ∀ i, ∀ p ∈ m.scopes.bindings i, ∀ f : Closure, (Value.function f).Within p.2 →
    f.scope < m.scopes.size

theorem Guard.founded (h : grounded.Inv m) : m.Founded where
  outer_lt := h.state.1
  exists_prelude _ hi := h.state.2.exists_prelude h.state.1 hi
  current_lt := h.place
  captured_lt i p hp f hf := (h.held i trivial p hp _ hf f rfl).lt_size

/-! ### Interpreters -/

/-- The states of an interpreter between its programs, with the scopes of its prelude and of its own
names. One runs a session, and others the texts of libraries in the course of it. -/
inductive Machine.Interprets : Machine → Nat → Nat → Prop
  | session (world : World) : Interprets (.start world) 0 1
  | library {rest m : Machine} {site site' : Site} {n n' : Nat} {program : Program}
      {key name source : String} {natives : List (String × Value)} (rests : rest.Rests)
      (nested : Nested n ⟨site, .program program .null, rest⟩ n'
        ⟨site', .text key name source natives, m⟩) :
      Interprets (m.beginLibrary key natives) m.scopes.size (m.scopes.size + 1)
  | run {m : Machine} {builtins globals : Nat} (interprets : Interprets m builtins globals)
      (site : Site) (n : Nat) (program : Program) :
      Interprets (runProgram site n program .null m).2 builtins globals
  | wait {m : Machine} {builtins globals : Nat} (interprets : Interprets m builtins globals)
      (world : World) : Interprets { m with world := world } builtins globals

/-- The way outward from the current scope comes to scope `globals`, and then to the prelude
`builtins`. -/
structure Machine.StandsOn (m : Machine) (builtins globals : Nat) : Prop where
  outward : m.scopes.Outward m.current globals
  outer : m.scopes.outer? globals = some builtins
  prelude : m.scopes.IsPrelude builtins

theorem Machine.Interprets.standsOn {builtins globals : Nat} (h : m.Interprets builtins globals) :
    grounded.Free m ∧ m.StandsOn builtins globals := by
  induction h with
  | session world =>
    have hfree := grounded_start world
    exact ⟨hfree, .refl, rfl, hfree.inv.state.2 0 Nat.zero_lt_two rfl⟩
  | @library rest m site site' n n' program key name source natives rests nested =>
    have hpre := (rests.grounded.pre site program).nested nested
    have hinv : grounded.Inv (m.beginLibrary key natives) := hpre.inv.beginLibrary hpre.allowed
    have hcurrent : (m.beginLibrary key natives).current = m.scopes.size + 1 :=
      Scopes.size_push _ _
    have houter := m.scopes.outer?_push_push (Library.instantiate m.fresh Library.prelude)
      (Assoc.insertAll natives [])
    have hprelude : (m.beginLibrary key natives).scopes.IsPrelude m.scopes.size := by
      refine hinv.state.2 _ ?_ ?_
      · exact Nat.lt_trans (Nat.lt_succ_self _) (Scopes.lt_of_outer? houter)
      · exact (Scopes.outer?_push_of_lt (by simp) _).trans (Scopes.outer?_push_self _ _)
    refine ⟨grounded_free hinv ⟨m.scopes.size, ?_⟩, ?_, houter, hprelude⟩
    · rw [hcurrent]
      exact houter
    · rw [hcurrent]
      exact .refl
  | @run m builtins globals _ site n program ih =>
    obtain ⟨hfree, hstands⟩ := ih
    have hfree' := hfree.since (.run .refl site n program)
    have hg := ((brackets n).program site program .null m).grows
    have hlayers := (layered_runProgram site n program .null m).outward
    exact ⟨hfree', hlayers.trans (hstands.outward.grows hg),
      (hg.outer_eq _ (Scopes.lt_of_outer? hstands.outer)).trans hstands.outer,
      hstands.prelude.grows hg hfree'.inv.state.2⟩
  | wait _ world ih =>
    obtain ⟨hfree, hstands⟩ := ih
    exact ⟨hfree.since (.wait .refl world), hstands.outward, hstands.outer, hstands.prelude⟩

/-! ### Sessions -/

theorem Machine.Since.grows (h : m.Since m') : m.scopes.Grows m'.scopes := by
  have hfree : (grown m.scopes).Free m := ⟨grown_inv (.refl _), trivial, fun _ => trivial⟩
  exact (hfree.since h).inv.state

/-- In every state of every session, whatever came of the programs before, scopes are younger than
the ones around them, and from each of them, also from one that a function has kept, the way outward
comes to a prelude; so all walks along it end. A job in the course of a program finds the links that
were there before the program, and those that it finds and leaves stay for the rest of the session.
Between programs, the way outward from an interpreter's current scope comes to its own names and then
to its prelude. -/
theorem scopes_are_well_founded :
    (∀ m : Machine, m.Reached → m.Founded ∧ m.scopes.WalksEnd) ∧
    (∀ (rest m : Machine) (site : Site) (n n' : Nat) (program : Program) (j : Job), rest.Rests →
      Nested n ⟨site, .program program .null, rest⟩ n' j →
      (runProgram site n program .null rest).2.Since m →
      rest.scopes.Grows j.machine.scopes ∧ j.machine.scopes.Grows (j.final n').scopes ∧
        (j.final n').scopes.Grows m.scopes) ∧
    ∀ (m : Machine) (builtins globals : Nat), m.Interprets builtins globals →
      m.StandsOn builtins globals := by
  refine ⟨fun m hm => ?_, fun rest m site n n' program j hrest hj hm => ?_, fun m b g hm => ?_⟩
  · exact ⟨founded hm.grounded, hm.ordered.walksEnd⟩
  · have hpre := ordered_program hrest.ordered site program
    exact ⟨hj.grows, j.grows_final n', (hj.final_grows hpre).trans hm.grows⟩
  · exact hm.standsOn.2

/-- A function is kept that was made in a block, scope 2, and then the program fails. -/
theorem scopes_are_well_founded_around_a_kept_function :
    let start : Machine := .start (.start ⟨[], []⟩ [])
    let body : List Stmt := [.expr (.ident "x" 1) 1]
    let program : Program :=
      [.bind "f" (.cond (.bool true 1) [.expr (.function [] body 1) 1] none 1) 1,
        .expr (.ident "y" 2) 2]
    let run := runProgram ⟨"main", "/"⟩ 6 program .null start
    let m : Machine := run.2
    run.1 = .signal (.failed ⟨.unboundName "y", some 2, some "main"⟩) ∧
      m.scopes.bindings 1 = [("f", .function ⟨2, [], body, 2⟩)] ∧
      m.Reached ∧ (∃ r, m.scopes.Outward 2 r ∧ m.scopes.IsPrelude r) ∧
      (∃ path last, m.scopes.Walk (m.scopes.Binds · "y") 2 path last) ∧
      start.Rests ∧ start.scopes.Grows m.scopes ∧ m.Interprets 0 1 ∧ m.StandsOn 0 1 := by
  intro start body program run m
  have hstart : start.Rests := .start _
  have hm : m.Reached := (hstart.run ⟨"main", "/"⟩ 6 program).reached
  have hinterprets : m.Interprets 0 1 := (Machine.Interprets.session _).run _ _ _
  obtain ⟨hstate, hlinks, hstands⟩ := scopes_are_well_founded
  obtain ⟨hfounded, hwalks⟩ := hstate m hm
  obtain ⟨path, last, hwalk, -⟩ := hwalks.name 2 "y"
  obtain ⟨-, hgrows, -⟩ := hlinks start m ⟨"main", "/"⟩ 6 6 program _ hstart (.refl _ _) .refl
  exact ⟨rfl, rfl, hm, hfounded.exists_prelude 2 (by decide), ⟨path, last, hwalk⟩, hstart,
    hgrows, hinterprets, hstands m 0 1 hinterprets⟩

end MeowLang
