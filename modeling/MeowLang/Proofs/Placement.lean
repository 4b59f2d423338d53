import MeowLang.Proofs.Evaluation.Plan
import MeowLang.Proofs.Evaluation.Stops
import MeowLang.Proofs.Program.Equality

/-! Where faults are said to be. The place of a fault is put together from the line of a node and
the file of the text that is being run. The two belong together as long as a text runs code of its
own. A function keeps its body but not the file that it was written in, so a fault inside a function
of a library is placed in the file that has called it. -/
namespace MeowLang

/-! ### Nodes -/

def Expr.body : Expr → List Stmt
  | .function _ body _ => body
  | _ => []

inductive Node where
  | expr (e : Expr)
  | stmt (t : Stmt)

namespace Node

def line : Node → Int
  | expr e => e.line
  | stmt t => t.line

def children : Node → List Node
  | expr e => e.parts.map expr ++ e.blocks.flatten.map stmt ++ e.body.map stmt
  | stmt t => t.parts.map expr

/-- `a` is `b` or stands somewhere inside it. -/
def Within : Node → Node → Prop := Relation.ReflTransGen fun a b => a ∈ b.children

end Node

namespace Program

variable {code : Program} {a b : Node}

def Holds (code : Program) (a : Node) : Prop := ∃ t ∈ code, a.Within (.stmt t)

def Writes (code : Program) (f : Closure) : Prop :=
  ∃ line, code.Holds (.expr (.function f.params f.body line))

def HasLine (code : Program) (line : Int) : Prop := ∃ a, code.Holds a ∧ a.line = line

theorem holds_of_mem {t : Stmt} (ht : t ∈ code) : code.Holds (.stmt t) := ⟨t, ht, .refl⟩

theorem Holds.child (hb : code.Holds b) (ha : a ∈ b.children) : code.Holds a := by
  obtain ⟨t, ht, hb⟩ := hb
  exact ⟨t, ht, .head ha hb⟩

/-- What is true of the statements of a program, and of the children of whatever it is true of, is
true of all that the program holds. -/
theorem Holds.induct {P : Node → Prop} (h : code.Holds a) (base : ∀ t ∈ code, P (.stmt t))
    (step : ∀ a b, P b → a ∈ b.children → P a) : P a := by
  obtain ⟨t, ht, ha⟩ := h
  induction ha using Relation.ReflTransGen.head_induction_on with
  | refl => exact base t ht
  | head hchild _ ih => exact step _ _ ih hchild

theorem Holds.part {e d : Expr} (h : code.Holds (.expr e)) (hd : d ∈ e.parts) :
    code.Holds (.expr d) := by
  apply h.child
  simp [Node.children, hd]

theorem Holds.block {e : Expr} {ss : List Stmt} {t : Stmt} (h : code.Holds (.expr e))
    (hs : ss ∈ e.blocks) (ht : t ∈ ss) : code.Holds (.stmt t) := by
  apply h.child
  simp only [Node.children, List.mem_append, List.mem_map, List.mem_flatten]
  exact .inl (.inr ⟨t, ⟨ss, hs, ht⟩, rfl⟩)

theorem Holds.value {t : Stmt} {e : Expr} (h : code.Holds (.stmt t)) (he : e ∈ t.parts) :
    code.Holds (.expr e) := by
  apply h.child
  simp [Node.children, he]

/-- What a program writes as the body of a function stands in the program. -/
theorem Writes.hasLine {f : Closure} {line : Int} (hw : code.Writes f)
    (hl : HasLine f.body line) : code.HasLine line := by
  obtain ⟨l, t, ht, hf⟩ := hw
  obtain ⟨a, ⟨s, hs, ha⟩, hline⟩ := hl
  have hbody : Node.stmt s ∈ (Node.expr (.function f.params f.body l)).children := by
    simp [Node.children, Expr.body, hs]
  exact ⟨a, ⟨t, ht, (ha.tail hbody).trans hf⟩, hline⟩

end Program

/-! ### The code of a job -/

/-- The pieces of code that a task is still to evaluate. -/
def Task.nodes : Task → List Node
  | .expr e => [.expr e]
  | .all es => es.map .expr
  | .entries _ es _ => es.flatMap fun p => [.expr p.1, .expr p.2]
  | .loop ss | .block ss _ | .program ss _ => ss.map .stmt
  | .stmt s => [.stmt s]
  | .call _ _ _ | .library _ | .text _ _ _ _ => []

/-- Everything that a job evaluates itself, and every line that it can fail at, is in the
program. -/
structure Program.Covers (code : Program) (j : Job) : Prop where
  nodes : ∀ a ∈ j.task.nodes, code.Holds a
  lines : ∀ line ∈ j.task.lines, code.HasLine line

/-- A job in whose course `n` is the bound has called a function in a text of this file. -/
def Job.Calls (n : Nat) (root : Job) (file : String) (f : Closure) : Prop :=
  ∃ n' site args line m, Nested n root n' ⟨site, .call (.function f) args line, m⟩ ∧
    site.file = file

/-- The texts that are run in the course of a job: its own program, and those of libraries. -/
inductive Job.Runs (n : Nat) (root : Job) : String → Program → Prop
  | main {text : Program} {last : Value} (own : root.task = .program text last) :
      Runs n root root.site.file text
  | library {n' : Nat} {site : Site} {file name source : String} {natives : List (String × Value)}
      {m : Machine} {parsed : Parsed}
      (nested : Nested n root n' ⟨site, .text file name source natives, m⟩)
      (read : Parsed.ofSource source = .ok parsed) : Runs n root file parsed.program

namespace Program

variable {code : Program} {site : Site} {m : Machine}

theorem covers_expr {e : Expr} (h : code.Holds (.expr e)) : code.Covers ⟨site, .expr e, m⟩ where
  nodes _ ha := List.mem_singleton.mp ha ▸ h
  lines _ hl := ⟨_, h, (List.mem_singleton.mp hl).symm⟩

theorem covers_stmt {t : Stmt} (h : code.Holds (.stmt t)) : code.Covers ⟨site, .stmt t, m⟩ where
  nodes _ ha := List.mem_singleton.mp ha ▸ h
  lines _ hl := ⟨_, h, (List.mem_singleton.mp hl).symm⟩

theorem covers_all {es : List Expr} (h : ∀ e ∈ es, code.Holds (.expr e)) :
    code.Covers ⟨site, .all es, m⟩ where
  nodes a ha := by
    obtain ⟨e, he, rfl⟩ := List.mem_map.mp ha
    exact h e he
  lines := nofun

theorem covers_entries {line : Int} {es : List (Expr × Expr)} {before : List (Key × Value)}
    (hline : code.HasLine line) (h : ∀ p ∈ es, code.Holds (.expr p.1) ∧ code.Holds (.expr p.2)) :
    code.Covers ⟨site, .entries line es before, m⟩ where
  nodes a ha := by
    obtain ⟨p, hp, ha⟩ := List.mem_flatMap.mp ha
    rcases List.mem_pair.mp ha with rfl | rfl
    · exact (h p hp).1
    · exact (h p hp).2
  lines l hl := List.mem_singleton.mp hl ▸ hline

theorem holds_of_mem_map {ss : List Stmt} (h : ∀ t ∈ ss, code.Holds (.stmt t)) :
    ∀ a ∈ ss.map Node.stmt, code.Holds a := by
  intro a ha
  obtain ⟨t, ht, rfl⟩ := List.mem_map.mp ha
  exact h t ht

theorem covers_loop {ss : List Stmt} (h : ∀ t ∈ ss, code.Holds (.stmt t)) :
    code.Covers ⟨site, .loop ss, m⟩ := ⟨holds_of_mem_map h, nofun⟩

theorem covers_block {ss : List Stmt} {last : Value} (h : ∀ t ∈ ss, code.Holds (.stmt t)) :
    code.Covers ⟨site, .block ss last, m⟩ := ⟨holds_of_mem_map h, nofun⟩

theorem covers_program {ss : List Stmt} {last : Value} (h : ∀ t ∈ ss, code.Holds (.stmt t)) :
    code.Covers ⟨site, .program ss last, m⟩ where
  nodes := holds_of_mem_map h
  lines l hl := by
    obtain ⟨t, ht, rfl⟩ := List.mem_map.mp hl
    exact ⟨_, h t ht, rfl⟩

end Program

open Program

variable {n : Nat} {code : Program}

/-- What a job starts is made of the same code, unless a function is called or a library is
run. -/
inductive Program.Carries (code : Program) (j j' : Job) : Prop
  | same (site : j'.site = j.site) (covers : code.Covers j')
  | called {f : Closure} {args : List Value} {line : Int}
      (call : j.task = .call (.function f) args line) (site : j'.site = j.site)
      (covers : Program.Covers f.body j')
  | loaded {file name source : String} {natives : List (String × Value)} {parsed : Parsed}
      (load : j.task = .text file name source natives) (read : Parsed.ofSource source = .ok parsed)
      (site : j'.site.file = file) (covers : parsed.program.Covers j')

theorem Starts.carries {j j' : Job} (hs : Starts n j j') (hc : code.Covers j) :
    code.Carries j j' := by
  cases hs with
  | items =>
    have h := hc.nodes _ (List.mem_singleton_self _)
    exact .same rfl (covers_all fun e he => h.part he)
  | entries =>
    have h := hc.nodes _ (List.mem_singleton_self _)
    refine .same rfl (covers_entries ⟨_, h, rfl⟩ fun p hp => ⟨h.part ?_, h.part ?_⟩)
    · exact List.mem_flatMap.mpr ⟨p, hp, List.mem_cons_self⟩
    · exact List.mem_flatMap.mpr ⟨p, hp, List.mem_cons_of_mem _ List.mem_cons_self⟩
  | operand | test | callee | measured | left | collection =>
    have h := hc.nodes _ (List.mem_singleton_self _)
    exact .same rfl (covers_expr (h.part List.mem_cons_self))
  | right done | position done =>
    have h := hc.nodes _ (List.mem_singleton_self _)
    exact .same rfl (covers_expr (h.part (List.mem_cons_of_mem _ List.mem_cons_self)))
  | yes done holds =>
    have h := hc.nodes _ (List.mem_singleton_self _)
    exact .same rfl (covers_block fun t ht => h.block List.mem_cons_self ht)
  | no done fails =>
    have h := hc.nodes _ (List.mem_singleton_self _)
    exact .same rfl (covers_block fun t ht =>
      h.block (List.mem_cons_of_mem _ (List.mem_singleton_self _)) ht)
  | arguments done =>
    have h := hc.nodes _ (List.mem_singleton_self _)
    exact .same rfl (covers_all fun e he => h.part (List.mem_cons_of_mem _ he))
  | call done done' =>
    have h := hc.nodes _ (List.mem_singleton_self _)
    exact .same rfl ⟨nofun, fun l hl => ⟨_, h, (List.mem_singleton.mp hl).symm⟩⟩
  | loop =>
    have h := hc.nodes _ (List.mem_singleton_self _)
    exact .same rfl (covers_loop fun t ht => h.block (List.mem_singleton_self _) ht)
  | head => exact .same rfl (covers_expr (hc.nodes _ List.mem_cons_self))
  | tail done =>
    refine .same rfl (covers_all fun e he => hc.nodes _ ?_)
    exact List.mem_map_of_mem (List.mem_cons_of_mem _ he)
  | key => exact .same rfl (covers_expr (hc.nodes _ List.mem_cons_self))
  | entry keyed usable =>
    exact .same rfl (covers_expr (hc.nodes _ (List.mem_cons_of_mem _ List.mem_cons_self)))
  | rest keyed usable valued =>
    refine .same rfl (covers_entries (hc.lines _ (List.mem_singleton_self _)) fun p hp => ?_)
    have hmem : ∀ a ∈ [Node.expr p.1, .expr p.2], code.Holds a := fun a ha =>
      hc.nodes a (List.mem_flatMap.mpr ⟨p, List.mem_cons_of_mem _ hp, ha⟩)
    exact ⟨hmem _ List.mem_cons_self, hmem _ (List.mem_cons_of_mem _ List.mem_cons_self)⟩
  | round => exact .same rfl (covers_block fun t ht => hc.nodes _ (List.mem_map_of_mem ht))
  | again done goesOn =>
    exact .same rfl (covers_loop fun t ht => hc.nodes _ (List.mem_map_of_mem ht))
  | body arity => exact .called rfl rfl (covers_block fun t ht => holds_of_mem ht)
  | first => exact .same rfl (covers_stmt (hc.nodes _ List.mem_cons_self))
  | next done =>
    exact .same rfl (covers_block fun t ht =>
      hc.nodes _ (List.mem_map_of_mem (List.mem_cons_of_mem _ ht)))
  | value | bound | rebound | given =>
    have h := hc.nodes _ (List.mem_singleton_self _)
    exact .same rfl (covers_expr (h.value List.mem_cons_self))
  | load | text plan => exact .same rfl ⟨nofun, nofun⟩
  | run read clean unused => exact .loaded rfl read rfl (covers_program fun t ht => holds_of_mem ht)
  | opening => exact .same rfl (covers_stmt (hc.nodes _ List.mem_cons_self))
  | onward done =>
    exact .same rfl (covers_program fun t ht =>
      hc.nodes _ (List.mem_map_of_mem (List.mem_cons_of_mem _ ht)))

/-! ### The course of a run -/

/-- A job belongs to a text that is run in the course of `root`: the text is that of the file which
the job names, and its code is either in the text or in a function that the text has called. -/
def Job.Belongs (n : Nat) (root j : Job) : Prop :=
  ∃ text, root.Runs n j.site.file text ∧
    (text.Covers j ∨ ∃ f, root.Calls n j.site.file f ∧ Program.Covers f.body j)

theorem Job.Belongs.step {n n' : Nat} {root j j' : Job} (hn : Nested n root (n' + 1) j)
    (hb : root.Belongs n j) (hs : Starts n' j j') : root.Belongs n j' := by
  obtain ⟨text, hruns, hcode⟩ := hb
  -- whichever code the job is made of, only a call or a library leads out of it
  have carried {code : Program} (hc : code.Covers j)
      (keep : j'.site = j.site → code.Covers j' → root.Belongs n j') : root.Belongs n j' := by
    cases hs.carries hc with
    | same site covers => exact keep site covers
    | @called f args line call site covers =>
      obtain ⟨_, _, m⟩ := j
      cases call
      rw [Belongs, site]
      exact ⟨text, hruns, .inr ⟨f, ⟨_, _, args, line, m, hn, rfl⟩, covers⟩⟩
    | loaded load read file covers =>
      obtain ⟨_, _, m⟩ := j
      cases load
      rw [Belongs, file]
      exact ⟨_, .library hn read, .inl covers⟩
  rcases hcode with hc | ⟨f, hcalls, hc⟩
  · refine carried hc fun site covers => ?_
    rw [Belongs, site]
    exact ⟨text, hruns, .inl covers⟩
  · refine carried hc fun site covers => ?_
    rw [Belongs, site]
    exact ⟨text, hruns, .inr ⟨f, hcalls, covers⟩⟩

theorem Job.Belongs.nested {n n' k : Nat} {root j j' : Job} (hn : Nested n root k j)
    (hb : root.Belongs n j) (h : Nested k j n' j') : root.Belongs n j' := by
  induction h with
  | refl => exact hb
  | step starts _ ih => exact ih (hn.snoc starts) (hb.step hn starts)

/-! ### A function of a library -/

def callerOfLibrary : Program := [.load "lib" 1, .expr (.call (.ident "f" 1) [] 1) 1]

def failingLibrary : String := "\n\nset f=function()\x7bx\x7d;"

theorem runProgram_callerOfLibrary :
    (runProgram ⟨"main", "/"⟩ 9 callerOfLibrary .null
        (.start (.start (.ofText failingLibrary) []))).1 =
      .signal (.failed ⟨.unboundName "x", some 3, some "main"⟩) := by
  have hplan :=
    Machine.plan_ofText (m := .start (.start (.ofText failingLibrary) [])) "main" rfl rfl
  have hparse : Parsed.ofSource (String.ofList (Text.unifyNewlines failingLibrary.toList)) =
      .ok ⟨[.bind "f" (.function [] [.expr (.ident "x" 3) 3] 3) 3], []⟩ := by decide +kernel
  simp only [callerOfLibrary, runProgram, exec, load, hplan, runLibrary, hparse]
  rfl

theorem line_of_callerOfLibrary {a : Node} (h : callerOfLibrary.Holds a) : a.line = 1 := by
  have hall : a ∈ [Node.stmt (.load "lib" 1), .stmt (.expr (.call (.ident "f" 1) [] 1) 1),
      .expr (.call (.ident "f" 1) [] 1), .expr (.ident "f" 1)] := by
    apply h.induct
    · simp [callerOfLibrary]
    · intro a b hb ha
      simp only [List.mem_cons, List.not_mem_nil, or_false] at hb
      rcases hb with rfl | rfl | rfl | rfl <;>
        simp_all [Node.children, Expr.parts, Expr.blocks, Expr.body, Stmt.parts]
  simp only [List.mem_cons, List.not_mem_nil, or_false] at hall
  rcases hall with rfl | rfl | rfl | rfl <;> rfl

/-- A fault that ends a program has a place. Its file is that of a text that was run, the program
itself or a library. Its line is one of that text, or one of a function that the text has called
but that is not written there. -/
theorem faults_are_placed_where_code_runs (site : Site) (n : Nat) (program : Program) (m : Machine)
    (fault : Fault)
    (hf : (runProgram site n program .null m).1 = .signal (.failed fault)) :
    let root : Job := ⟨site, .program program .null, m⟩
    ∃ line file text, fault.line = some line ∧ fault.file = some file ∧ root.Runs n file text ∧
      (text.HasLine line ∨
        ∃ f, root.Calls n file f ∧ ¬ text.Writes f ∧ Program.HasLine f.body line) := by
  intro root
  have hstops : root.Stops n (.fault fault) := by
    rw [Job.Stops, hf]
    exact .fault fault
  obtain ⟨⟨n', j, hnested, hraises⟩, hload | hplaced⟩ := hstops.raised
  · cases hload
  have hroot : root.Belongs n root :=
    ⟨program, .main rfl, .inl (covers_program fun t ht => holds_of_mem ht)⟩
  obtain ⟨text, hruns, hcode⟩ := hroot.nested (.refl _ _) hnested
  cases hraises with
  | unplaced load cause => exact absurd rfl hplaced
  | @fault line own cause =>
    refine ⟨line, j.site.file, text, rfl, rfl, hruns, ?_⟩
    rcases hcode with hc | ⟨f, hcalls, hc⟩
    · exact .inl (hc.lines line own)
    by_cases hwrites : text.Writes f
    · exact .inl (hwrites.hasLine (hc.lines line own))
    · exact .inr ⟨f, hcalls, hwrites, hc.lines line own⟩

theorem faults_are_placed_where_code_runs_in_a_caller :
    let m : Machine := .start (.start (.ofText failingLibrary) [])
    let root : Job := ⟨⟨"main", "/"⟩, .program callerOfLibrary .null, m⟩
    (runProgram ⟨"main", "/"⟩ 9 callerOfLibrary .null m).1 =
        .signal (.failed ⟨.unboundName "x", some 3, some "main"⟩) ∧
      ∃ text, root.Runs 9 "main" text ∧ (text.HasLine 3 ∨
        ∃ f, root.Calls 9 "main" f ∧ ¬ text.Writes f ∧ Program.HasLine f.body 3) := by
  intro m root
  obtain ⟨line, file, text, hline, hfile, hplace⟩ :=
    faults_are_placed_where_code_runs ⟨"main", "/"⟩ 9 callerOfLibrary m _ runProgram_callerOfLibrary
  cases hline
  cases hfile
  exact ⟨runProgram_callerOfLibrary, text, hplace⟩

/-- A fault can be placed at a line that the program of its file does not have. -/
theorem faults_are_not_always_placed_where_code_is :
    ¬ ∀ (site : Site) (n : Nat) (program : Program) (world : World) (fault : Fault) (line : Int),
      (runProgram site n program .null (.start world)).1 = .signal (.failed fault) →
      fault.file = some site.file → fault.line = some line → program.HasLine line := by
  intro hall
  obtain ⟨a, ha, hline⟩ :=
    hall ⟨"main", "/"⟩ 9 callerOfLibrary _ _ 3 runProgram_callerOfLibrary rfl rfl
  rw [line_of_callerOfLibrary ha] at hline
  cases hline

end MeowLang
