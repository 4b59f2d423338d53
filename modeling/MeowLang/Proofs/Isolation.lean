import MeowLang.Proofs.Evaluation.Discipline
import MeowLang.Proofs.Evaluation.Ordered
import MeowLang.Proofs.Evaluation.Plan
import MeowLang.Proofs.Frame
import MeowLang.Proofs.Program.Equality

/-! Libraries run apart from whoever loads them. A load changes no binding of a scope that was
there, so nothing that was seen from such a scope is seen otherwise after it, and the functions
that it brings look names up in scopes that it has made. -/
namespace MeowLang

/-- The scopes of `old` are as they were, and nothing that runs or is held in the other scopes can
reach them. -/
def Guard.apart (old : Scopes) : Guard.Open where
  state := old.Kept id
  place s c := s.Apart old.size c
  own c := old.size ≤ c
  region i := old.size ≤ i
  node s v := ∀ f, v = .function f → s.Apart old.size f.scope
  expr s c _ := s.Apart old.size c
  stmt s c _ := s.Apart old.size c
  node_of_isData h := by
    rintro f rfl
    cases h
  node_of_grows hg h f hf := (h f hf).grows hg
  place_of_grows hg h := h.grows hg
  expr_of_grows hg h := h.grows hg
  stmt_of_grows hg h := h.grows hg
  region_of_mem_chain h hi := (h _ (Scopes.outward_of_mem_chain hi)).1
  expr_part h _ := h
  expr_block h _ _ := h
  stmt_part h _ := h
  stmt_inner h ho hd := h.inner ho hd
  closure h _ _ := by
    rintro f ⟨⟩
    exact h
  place_of_closure h := h _ rfl
  stmt_of_closure h _ := h _ rfl
  state_push h _ _ := h.push _
  place_push h ho := Scopes.along_push h.1 ho
  own_size h := h.1
  stmt_of_library h _ _ _ := Scopes.apart_push_push h.1
  state_bind h hc _ := h.set_of_le hc
  state_rebind h hc hi := by
    have hi := hc _ (Scopes.outward_of_mem_chain (Scopes.mem_chain_of_holder? hi))
    exact h.set_of_le hi.1

open Guard

variable {m : Machine} {site : Site} {n : Nat} {key name source : String}
  {natives : List (String × Value)}

/-- A library starts apart from all scopes that are there. -/
theorem apart_beginLibrary (hn : (apart m.scopes).HeldIn m.scopes natives) :
    (apart m.scopes).Inv (m.beginLibrary key natives) where
  state := ((Scopes.Kept.refl _ _).push _).push _
  place := by
    have hc : (m.beginLibrary key natives).current = m.scopes.size + 1 := Scopes.size_push _ _
    rw [hc]
    exact Scopes.apart_push_push (Nat.le_refl _)
  held i hi p hp := by
    have hprelude := m.scopes.grows_push ⟨Library.instantiate m.fresh Library.prelude, none⟩
    rcases Scopes.mem_bindings_push hp with hp | hp
    · rcases Scopes.mem_bindings_push hp with hp | hp
      · have hlt : i < m.scopes.size := Scopes.lt_of_mem_bindings hp
        have hle : m.scopes.size ≤ i := hi
        omega
      · exact heldIn_instantiate _ _ p hp
    · have hall := heldIn_insertAll (hn.grows hprelude)
      exact (hall p hp).grows (Scopes.grows_push _ _)

/-- What a load leaves: the old scopes as they were, and exports that cannot reach them. -/
structure Machine.LoadsApart (m : Machine) (p : Outcome (List (String × Value)) × Machine) :
    Prop where
  kept : m.scopes.Kept id p.2.scopes
  exported : ∀ exports, p.1 = .value exports → (apart m.scopes).HeldIn p.2.scopes exports

theorem apart_runLibrary (hn : (apart m.scopes).HeldIn m.scopes natives) :
    m.LoadsApart (runLibrary site n key name source natives m) := by
  cases n with
  | zero => exact ⟨.refl _ _, nofun⟩
  | succ n =>
    obtain ⟨r, hr, heq⟩ | ⟨parsed, r, m', -, -, -, hrun, heq⟩ :=
      runLibrary_cases site n key name source natives m
    · rw [heq]
      refine ⟨.refl _ _, fun exports hv => ?_⟩
      cases hr <;> cases hv
    · have hinv : (apart m.scopes).Inv (m.beginLibrary key natives) := apart_beginLibrary hn
      have hown : m.scopes.size ≤ (m.beginLibrary key natives).current := (hinv.place _ .refl).1
      have hpre : (apart m.scopes).Pre
          ⟨{ site with file := key }, .program parsed.program .null, m.beginLibrary key natives⟩ :=
        ⟨hinv, hown, fun _ _ => hinv.place, held_of_data Value.madeOf_null⟩
      have hpost := ((apart m.scopes).guarded n).program _ _ _ _ hpre
      rw [hrun] at hpost
      rw [heq]
      refine ⟨hpost.inv.state, fun exports hv => ?_⟩
      cases r with
      | value v =>
        cases hv
        exact hpost.inv.held_exports
      | _ => cases hv

theorem apart_load : m.LoadsApart (load site n name m) := by
  cases n with
  | zero => exact ⟨.refl _ _, nofun⟩
  | succ n =>
    rw [load_succ]
    cases m.plan site name with
    | fault cause => exact ⟨.refl _ _, nofun⟩
    | halt h => exact ⟨.refl _ _, nofun⟩
    | hand exports =>
      refine ⟨.refl _ _, fun es hv => ?_⟩
      cases hv
      exact heldIn_instantiate _ _
    | run key source exports =>
      have hrun : (m.instantiate exports).2.LoadsApart (runLibrary site n key name source
          (m.instantiate exports).1 (m.instantiate exports).2) :=
        apart_runLibrary (heldIn_instantiate m.fresh exports)
      exact ⟨hrun.kept, hrun.exported⟩

theorem apart_exec_load {line : Int} {r : Outcome Value} {m' : Machine}
    (h : exec site n (.load name line) m = (r, m')) :
    m.scopes.Kept id m'.scopes ∧ ∀ v, r = .value v →
      (apart m.scopes).HeldIn m'.scopes (m'.scopes.bindings m'.current) := by
  cases n with
  | zero =>
    cases h
    exact ⟨.refl _ _, nofun⟩
  | succ n =>
    have hload : m.LoadsApart (load site n name m) := apart_load
    simp only [exec] at h
    split at h <;> rename_i heq <;> rw [heq] at hload <;> cases h
    · rename_i exports m₁
      refine ⟨hload.kept.push _, fun _ _ => ?_⟩
      have hheld := heldIn_insertAll (hload.exported exports rfl)
      have hb := m₁.scopes.bindings_push_self ⟨Assoc.insertAll exports [], some m₁.current⟩
      exact hb ▸ hheld.grows (Scopes.grows_push _ _)
    all_goals
      refine ⟨hload.kept, fun v hv => ?_⟩
      cases hv

/-- A name has the same value as before, seen from a scope that was there before. -/
theorem Scopes.get?_of_kept {s s' : Scopes} {c : Nat} (hs : s.Ordered) (hg : s.Grows s')
    (hk : s.Kept id s') (hc : c < s.size) (x : String) : s'.get? c x = s.get? c x := by
  apply get?_congr hs hg hc
  intro i hi
  have hle := hs.le_of_mem_chain hi
  have hb : s'.bindings i = s.bindings i := hk.2 i (by omega)
  rw [hb]

/-- A load, of whatever library and with whatever outcome, leaves the bindings of all scopes that
were there, so every name keeps its value there; and if it succeeds, the functions among its
exports look names up in scopes that it has made. The scopes are ordered in every state that is
reached (`Machine.Reached.ordered`). -/
theorem libraries_are_isolated (site : Site) (n : Nat) (name : String) (line : Int) (m : Machine)
    (hm : m.scopes.Ordered) :
    let after := exec site n (.load name line) m
    (∀ i < m.scopes.size, after.2.scopes.bindings i = m.scopes.bindings i ∧
      ∀ x, after.2.scopes.get? i x = m.scopes.get? i x) ∧
    ∀ v, after.1 = .value v → ∃ exports, m.Layers exports after.2 ∧
      ∀ p ∈ exports, ∀ f, (Value.function f).Within p.2 →
        ∀ i, after.2.scopes.Outward f.scope i → m.scopes.size ≤ i := by
  intro after
  have hload : exec site n (.load name line) m = (after.1, after.2) := rfl
  obtain ⟨hkept, hheld⟩ := apart_exec_load hload
  have hgrows : m.scopes.Grows after.2.scopes := ((brackets n).stmt site (.load name line) m).grows
  refine ⟨fun i hi => ⟨hkept.2 i hi, Scopes.get?_of_kept hm hgrows hkept hi⟩, fun v hv => ?_⟩
  cases n with
  | zero => cases hv
  | succ n =>
    obtain ⟨exports, -, -, hlayers⟩ := exec_load_value (hload.trans (by rw [hv]))
    refine ⟨exports, hlayers, fun p hp f hf i hi => ?_⟩
    rw [hlayers.bindings] at hheld
    have hapart : after.2.scopes.Apart m.scopes.size f.scope := hheld v hv p hp _ hf f rfl
    exact (hapart i hi).1

theorem libraries_are_isolated_from_a_name_of_theirs :
    let m : Machine := .start (.start (.ofText "set log=function()\x7b\x7d;") [])
    let f : Closure := ⟨4, [], [], 3⟩
    let after := exec ⟨"main", "/"⟩ 9 (.load "lib" 1) m
    m.scopes.Ordered ∧ after.1 = .value .null ∧
      after.2.scopes.get? 1 "log" = some (.native .log 0) ∧
      after.2.scopes.bindings after.2.current = [("log", .function f)] ∧
      ∀ i, after.2.scopes.Outward f.scope i → 2 ≤ i := by
  intro m f
  have hm : m.scopes.Ordered := (Machine.Rests.start _).reached.ordered
  have hsize : m.scopes.size = 2 := rfl
  have hlog : m.scopes.get? 1 "log" = some (.native .log 0) := rfl
  have hplan := Machine.plan_ofText (m := m) "main" rfl rfl
  have hparse : Parsed.ofSource (String.ofList (Text.unifyNewlines
      "set log=function()\x7b\x7d;".toList)) =
      .ok ⟨[.bind "log" (.function [] [] 1) 1], []⟩ := by decide +kernel
  have hrun : (exec ⟨"main", "/"⟩ 9 (.load "lib" 1) m).1 = .value .null ∧
      (exec ⟨"main", "/"⟩ 9 (.load "lib" 1) m).2.scopes.bindings
        (exec ⟨"main", "/"⟩ 9 (.load "lib" 1) m).2.current = [("log", .function f)] := by
    simp only [exec, load, hplan, runLibrary, hparse]
    exact ⟨rfl, rfl⟩
  have hisolated := libraries_are_isolated ⟨"main", "/"⟩ 9 "lib" 1 m hm
  -- all that is needed of the load is known, so it is not computed again
  generalize exec ⟨"main", "/"⟩ 9 (.load "lib" 1) m = after at hrun hisolated ⊢
  obtain ⟨hkept, hnew⟩ := hisolated
  obtain ⟨exports, hlayers, hapart⟩ := hnew .null hrun.1
  have hexports : ("log", Value.function f) ∈ exports := by
    rw [← hlayers.bindings, hrun.2]
    exact List.mem_singleton.mpr rfl
  rw [hsize] at hkept hapart
  rw [← (hkept 1 Nat.one_lt_two).2 "log"] at hlog
  exact ⟨hm, hrun.1, hlog, hrun.2, hapart _ hexports f (.refl _)⟩

end MeowLang
