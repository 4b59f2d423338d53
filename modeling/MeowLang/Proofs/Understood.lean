import MeowLang.Proofs.Evaluation.Stops
import MeowLang.Proofs.Program.Equality
import MeowLang.Proofs.Program.Formed

/-! What is read is understood. The code of a program that was read from a text, that of the
functions it makes and that of the libraries it loads are all made of nodes of the language, so
that no evaluation meets any other node. -/
namespace MeowLang

/-! ### Parts of what is formed -/

theorem Expr.Formed.part {e d : Expr} (h : e.Formed) (hd : d ∈ e.parts) : d.Formed := by
  cases h with
  | array parts => exact parts d hd
  | object keys values =>
    obtain ⟨p, hp, hd⟩ := List.mem_flatMap.mp hd
    rcases List.mem_pair.mp hd with rfl | rfl
    · exact keys p hp
    · exact values p hp
  | prefixed spells operand => exact List.mem_singleton.mp hd ▸ operand
  | between spells left right =>
    rcases List.mem_pair.mp hd with rfl | rfl
    · exact left
    · exact right
  | cond part first second => exact List.mem_singleton.mp hd ▸ part
  | call part parts =>
    rcases List.mem_cons.mp hd with rfl | hd
    · exact part
    · exact parts d hd
  | index collection position =>
    rcases List.mem_pair.mp hd with rfl | rfl
    · exact collection
    · exact position
  | kindOf operand => exact List.mem_singleton.mp hd ▸ operand
  | ident | number | string | bool | function | loop => cases hd

theorem Expr.Formed.block {e : Expr} {b : List Stmt} {t : Stmt} (h : e.Formed)
    (hb : b ∈ e.blocks) (ht : t ∈ b) : t.Formed := by
  cases h with
  | cond part first second =>
    rcases List.mem_cons.mp hb with rfl | hb
    · exact first t ht
    · exact second b (Option.mem_toList.mp hb) t ht
  | loop parts => exact parts t (List.mem_singleton.mp hb ▸ ht)
  | _ => cases hb

theorem Stmt.Formed.part {t : Stmt} {e : Expr} (h : t.Formed) (he : e ∈ t.parts) : e.Formed := by
  cases h with
  | bind name value | rebind name value | expr value => exact List.mem_singleton.mp he ▸ value
  | @giveBack o line value =>
    cases o with
    | none => cases he
    | some v => exact List.mem_singleton.mp he ▸ value v rfl
  | _ => cases he

/-- All code that is run or held is formed. -/
def Guard.formed : Guard.Open where
  state _ := True
  place _ _ := True
  own _ := True
  region _ := True
  node _ v := ∀ f, v = .function f → ∀ t ∈ f.body, t.Formed
  expr _ _ e := e.Formed
  stmt _ _ t := t.Formed
  node_of_isData h := by
    rintro f rfl
    cases h
  node_of_grows _ h := h
  place_of_grows _ h := h
  expr_of_grows _ h := h
  stmt_of_grows _ h := h
  region_of_mem_chain _ _ := trivial
  expr_part h hd := h.part hd
  expr_block h hb ht := h.block hb ht
  stmt_part h he := h.part he
  stmt_inner h _ _ := h
  closure _ h _ := by
    rintro f ⟨⟩
    cases h with
    | function names parts => exact parts
  place_of_closure _ := trivial
  stmt_of_closure h ht := h _ rfl _ ht
  state_push _ _ _ := trivial
  place_push _ _ := trivial
  own_size _ := trivial
  stmt_of_library _ read _ ht := Parsed.formed_of_ofSource read _ ht
  state_bind _ _ _ := trivial
  state_rebind _ _ _ := trivial

/-! ### Runs -/

/-- A state between programs that were all read from texts, at any site and to any outcome; the
world may change between them. -/
inductive Machine.RestsRead : Machine → Prop
  | start (world : World) : RestsRead (.start world)
  | run {m : Machine} (rests : RestsRead m) (site : Site) (n : Nat) {source : String}
      {parsed : Parsed} (read : Parsed.ofSource source = .ok parsed) :
      RestsRead (runProgram site n parsed.program .null m).2
  | wait {m : Machine} (rests : RestsRead m) (world : World) : RestsRead { m with world := world }

namespace Guard

variable {m : Machine}

theorem formed_start (world : World) : formed.Inv (.start world) := by
  have empty : formed.Inv ⟨.empty, 0, 0, [], world⟩ :=
    ⟨trivial, trivial, fun i _ p hp => nomatch hp⟩
  have roots : formed.Inv (Machine.beginLibrary ⟨.empty, 0, 0, [], world⟩ "" []) :=
    empty.beginLibrary fun _ hp => nomatch hp
  exact ⟨trivial, trivial, roots.held⟩

theorem formed_program {source : String} {parsed : Parsed} (hm : formed.Inv m) (site : Site)
    (read : Parsed.ofSource source = .ok parsed) :
    formed.Pre ⟨site, .program parsed.program .null, m⟩ :=
  ⟨hm, trivial, Parsed.formed_of_ofSource read, held_of_data Value.madeOf_null⟩

theorem formed_of_restsRead (h : m.RestsRead) : formed.Inv m := by
  induction h with
  | start world => exact formed_start world
  | run _ site n read ih => exact (formed_program ih site read).final n
  | wait _ world ih => exact ⟨ih.state, ih.place, ih.held⟩

theorem not_isForeign_of_pre {j : Job} (hp : formed.Pre j) : j.task.isForeign = false := by
  obtain ⟨site, task, m⟩ := j
  cases task with
  | expr e =>
    have he : e.Formed := hp.allowed
    cases he <;> rfl
  | stmt t =>
    have ht : t.Formed := hp.allowed.2
    cases ht <;> rfl
  | _ => rfl

/-- A job whose code is formed does not halt at a node that is none of the language. -/
theorem isUnknown_of_halts {n : Nat} {j : Job} {h : Halt} (hp : formed.Pre j)
    (hh : j.Halts n h) : h.isUnknown = false := by
  obtain ⟨⟨n', j', hnested, hraises⟩, -⟩ := hh.stops.raised
  cases hraises with
  | foreign node =>
    rw [not_isForeign_of_pre (hp.nested hnested)] at node
    cases node
  | halt known => exact known

end Guard

/-- A text whose tokens can be told is read as a program of formed statements, whatever is
complained of; and nothing that is evaluated in the course of such a program, in libraries too,
halts at a node that is none of the language. -/
theorem read_programs_are_understood (source : String) (tokens : List Token)
    (htokens : tokenize source = .ok tokens) :
    ∃ parsed, Parsed.ofSource source = .ok parsed ∧ (∀ s ∈ parsed.program, s.Formed) ∧
      ∀ m : Machine, m.RestsRead → ∀ site n n' j h,
        Nested n ⟨site, .program parsed.program .null, m⟩ n' j → j.Halts n' h →
          h.isUnknown = false := by
  rcases Parsed.ofSource_cases source with
    ⟨e, he, -⟩ | ⟨_, _, program, r', -, -, -, -, -, -, -, hparsed⟩
  · rw [htokens] at he
    cases he
  · refine ⟨_, hparsed, Parsed.formed_of_ofSource hparsed, fun m hm site n n' j h hj hh => ?_⟩
    have hpre := Guard.formed_program (Guard.formed_of_restsRead hm) site hparsed
    exact Guard.isUnknown_of_halts (hpre.nested hj) hh

theorem read_programs_are_understood_beside_a_complaint :
    ∃ parsed, Parsed.ofSource "include \"x\" +" = .ok parsed ∧
      parsed.errors = [.noOperand .eof] ∧ parsed.program = [.load "x" 1] ∧
      (∀ s ∈ parsed.program, s.Formed) ∧
      ∀ h, (runProgram ⟨"main", ""⟩ 9 parsed.program .null
        (.start (.start ⟨[], []⟩ []))).1 = .halted h → h.isUnknown = false := by
  have htokens : tokenize "include \"x\" +" = .ok [⟨.mark .includeWord, "include", 1⟩,
      ⟨.string "x", "\"x\"", 1⟩, ⟨.mark .plus, "+", 1⟩, ⟨.eof, "", 1⟩] := by decide +kernel
  have hread : Parsed.ofSource "include \"x\" +" =
      .ok ⟨[.load "x" 1], [.noOperand .eof]⟩ := by decide +kernel
  obtain ⟨parsed, hparsed, hformed, hruns⟩ := read_programs_are_understood _ _ htokens
  cases hread.symm.trans hparsed
  exact ⟨_, hparsed, rfl, rfl, hformed, fun h hh =>
    hruns _ (.start _) ⟨"main", ""⟩ 9 9 _ h (.refl _ _) hh⟩

end MeowLang
