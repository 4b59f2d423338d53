import Mathlib.Data.Finset.Card
import Mathlib.Logic.Relation
import MeowLang.Proofs.Evaluation.Discipline
import MeowLang.Proofs.Evaluation.Nested
import MeowLang.Proofs.Evaluation.Plan
import MeowLang.Proofs.Evaluation.Settle
import MeowLang.Proofs.File.Tree
import MeowLang.Proofs.Library
import MeowLang.Proofs.Program.Equality

/-! Loading libraries that only declare. Where every program file of a tree does nothing but load
libraries and name literals, a load searches the graph of includes depth first: the libraries being
loaded are the way to where the search is, so it comes to an end, and it succeeds exactly if no
library is missing and no way leads back to where it has been. -/
namespace MeowLang

open Relation

/-! ### Files that only declare -/

def Expr.isLiteral : Expr → Bool
  | .number _ _ | .string _ _ | .bool _ _ | .function _ _ _ => true
  | _ => false

def Stmt.isDeclaration : Stmt → Bool
  | .load _ _ => true
  | .bind _ e _ => e.isLiteral
  | _ => false

/-- A text was read without complaints, and its program only declares. -/
def Parsed.declares : Except MalformedNumber Parsed → Bool
  | .ok parsed => parsed.errors.isEmpty && parsed.program.all Stmt.isDeclaration
  | .error _ => false

/-- The text of a file, with its line ends unified, if its octets are a text. -/
def FileNode.text? : FileNode → Option String
  | .directory | .locked => none
  | .file octets =>
    match Text.Utf8.decode octets with
    | .ok s => some (String.ofList (Text.unifyNewlines s.toList))
    | .error _ => none

/-- Every file with the ending of programs holds a text that only declares. -/
def FileTree.isDeclarative (t : FileTree) : Bool :=
  t.nodes.all fun (place, node) =>
    node == .directory || !(place.getLast?.any (·.endsWith Path.sourceSuffix)) ||
      (node.text?.any fun source => Parsed.declares (Parsed.ofSource source))

/-- No name in the tree holds the character that paths cannot hold. -/
def FileTree.isNamed (t : FileTree) : Bool :=
  t.nodes.all fun (place, _) => place.all (!Path.hasNul ·)

/-- What declares is read, without complaints, as a program of declarations. -/
theorem Parsed.declares_iff {r : Except MalformedNumber Parsed} :
    declares r = true ↔ ∃ parsed, r = .ok parsed ∧ parsed.errors = [] ∧
      ∀ s ∈ parsed.program, s.isDeclaration = true := by
  cases r with
  | error e => simp [declares]
  | ok parsed => simp [declares]

/-! ### The graph of includes -/

namespace World

variable (w : World) (base : String)

def libraryPath (name : String) : String := Path.ofLibrary w.workingDirectory base name

/-- There is a library of this name: a built-in one, or a file. -/
def Provides (name : String) : Prop :=
  if Library.isBuiltIn name then (Library.find? name).isSome = true
  else w.files.isFile (w.libraryPath base name) = true

inductive HasText : String → String → Prop
  | builtIn {name source : String} {library : Library} (found : Library.find? name = some library)
      (text : library.source = some source) : HasText name source
  | file {name source : String} (own : Library.isBuiltIn name = false)
      (read : w.readText (w.libraryPath base name) = .ok source) : HasText name source

def Includes (name next : String) : Prop :=
  ∃ source parsed line, w.HasText base name source ∧ Parsed.ofSource source = .ok parsed ∧
    Stmt.load next line ∈ parsed.program

def Complete (name : String) : Prop :=
  ∀ a, ReflTransGen (w.Includes base) name a → w.Provides base a

/-- No way along includes leads from a file to the same file again. -/
def Acyclic (name : String) : Prop :=
  ∀ a b, ReflTransGen (w.Includes base) name a → TransGen (w.Includes base) a b →
    Library.isBuiltIn a = false → Library.isBuiltIn b = false →
    w.libraryPath base a ≠ w.libraryPath base b

/-- A library can be loaded while others are being loaded. -/
inductive Loadable : List String → String → Prop
  | builtIn {loading : List String} {name : String} {library : Library}
      (found : Library.find? name = some library) : Loadable loading name
  | file {loading : List String} {name : String} (own : Library.isBuiltIn name = false)
      (found : w.files.isFile (w.libraryPath base name) = true)
      (unused : w.libraryPath base name ∉ loading)
      (inner : ∀ next, w.Includes base name next →
        Loadable (w.libraryPath base name :: loading) next) : Loadable loading name

variable {w base} {name : String} {loading : List String}

theorem isBuiltIn_of_find? {library : Library} (h : Library.find? name = some library) :
    Library.isBuiltIn name = true := by
  unfold Library.find? at h
  split at h
  · assumption
  · cases h

theorem Loadable.provides (h : w.Loadable base loading name) : w.Provides base name := by
  cases h with
  | builtIn found => simp [Provides, isBuiltIn_of_find? found, found]
  | file own found => simpa [Provides, own] using found

end World

/-! ### Files by their names -/

namespace FileTree

variable {t : FileTree}

theorem exists_locate_of_isFile {path : String} (h : t.isFile path = true) :
    ∃ place node, t.locate path = .ok (.found place node) ∧ node ≠ .directory := by
  unfold isFile at h
  split at h
  · rename_i place octets hlocate
    exact ⟨place, _, hlocate, nofun⟩
  · rename_i place hlocate
    exact ⟨place, _, hlocate, nofun⟩
  · cases h

theorem isFile_of_readText {path source : String} (h : t.readText path = .ok source) :
    t.isFile path = true := by
  unfold readText at h
  split at h
  · cases h
  · cases hr : t.read path with
    | error fault =>
      rw [hr] at h
      cases h
    | ok octets => exact isFile_of_read hr

def texts (t : FileTree) : List String := t.nodes.filterMap fun (_, node) => node.text?

/-- A file that a library name leads to holds a text that only declares. -/
theorem exists_text_of_isFile (named : t.isNamed = true) (declarative : t.isDeclarative = true)
    {workingDirectory base name : String} (habs : Path.isAbsolute workingDirectory = true)
    (h : t.isFile (Path.ofLibrary workingDirectory base name) = true) :
    ∃ source ∈ t.texts, t.readText (Path.ofLibrary workingDirectory base name) = .ok source ∧
      Parsed.declares (Parsed.ofSource source) = true := by
  obtain ⟨start, cs, last, hs, hcs, hpath⟩ := Path.ofLibrary_under habs base name
  obtain ⟨place, node, hlocate, hnode⟩ := exists_locate_of_isFile h
  rw [hpath] at hlocate ⊢
  have hmem := mem_of_locate_under hs hcs hlocate hnode
  have hnul : Path.hasNul (Path.under start (cs ++ [last ++ Path.sourceSuffix])) = false := by
    rw [Path.hasNul_under hs]
    intro c hc
    have hplace := List.all_eq_true.mp named _ hmem
    simpa using List.all_eq_true.mp hplace c hc
  have hdeclares := List.all_eq_true.mp declarative _ hmem
  have hending : (last ++ Path.sourceSuffix).endsWith Path.sourceSuffix = true := by
    rw [Path.endsWith_iff, String.toList_append]
    exact List.suffix_append _ _
  simp only [List.getLast?_concat, Option.any_some, hending, Bool.not_true, Bool.or_false,
    Bool.or_eq_true, beq_iff_eq, hnode, false_or] at hdeclares
  obtain ⟨source, htext, hsource⟩ := (Option.any_eq_true _ _).mp hdeclares
  refine ⟨source, List.mem_filterMap.mpr ⟨_, hmem, htext⟩, ?_, hsource⟩
  -- a locked file has no text, so that it is not among those that only declare
  cases node with
  | directory => cases htext
  | locked => cases htext
  | file octets =>
    have hread := read_eq_ok_iff.mpr ⟨place, hlocate⟩
    simp only [FileNode.text?] at htext
    split at htext
    · rename_i s hdecode
      cases htext
      simp [readText, hnul, hread, hdecode]
    · cases htext

end FileTree

/-! ### Acyclic graphs -/

namespace World

variable {w : World} {base name next : String} {loading : List String}

/-- The only include of a built-in library is that of one without a text. -/
theorem Includes.of_builtIn (h : w.Includes base name next)
    (hname : Library.isBuiltIn name = true) : next = "nya:clawtility" := by
  obtain ⟨source, parsed, line, htext, hread, hmem⟩ := h
  cases htext with
  | file own read =>
    rw [hname] at own
    cases own
  | builtIn found text =>
    cases Library.eq_furrball_of_source (Library.mem_all_of_find? found) text
    cases text
    cases Library.ofSource_furrball.symm.trans hread
    have hload : next = "nya:clawtility" ∧ line = 2 := by
      simpa [Library.furrballProgram] using hmem
    exact hload.1

/-- What a library includes can be loaded while the library and those around it are loaded. -/
theorem Loadable.inside (h : w.Loadable base loading name) (hn : w.Includes base name next) :
    ∃ inner, loading ⊆ inner ∧
      (Library.isBuiltIn name = false → w.libraryPath base name ∈ inner) ∧
      w.Loadable base inner next := by
  cases h with
  | builtIn found =>
    have hname := isBuiltIn_of_find? found
    rw [hn.of_builtIn hname]
    exact ⟨loading, List.Subset.refl _, fun own => absurd own (by simp [hname]),
      .builtIn Library.find?_clawtility⟩
  | file own found unused inner =>
    exact ⟨_, List.subset_cons_self _ _, fun _ => List.mem_cons_self, inner next hn⟩

theorem Loadable.reaches {last : String} (h : w.Loadable base loading name)
    (hr : ReflTransGen (w.Includes base) name last) :
    ∃ inner, loading ⊆ inner ∧ w.Loadable base inner last := by
  induction hr with
  | refl => exact ⟨loading, List.Subset.refl _, h⟩
  | tail _ hn ih =>
    obtain ⟨inner, hinner, hlast⟩ := ih
    obtain ⟨inner', hinner', -, hnext⟩ := hlast.inside hn
    exact ⟨inner', List.Subset.trans hinner hinner', hnext⟩

theorem Loadable.complete (h : w.Loadable base loading name) : w.Complete base name := by
  intro a ha
  obtain ⟨_, -, hlast⟩ := h.reaches ha
  exact hlast.provides

theorem Loadable.acyclic (h : w.Loadable base loading name) : w.Acyclic base name := by
  intro a b ha hab owna ownb heq
  obtain ⟨_, -, hloadable⟩ := h.reaches ha
  obtain ⟨c, hac, hcb⟩ := TransGen.head'_iff.mp hab
  obtain ⟨inner, -, hmem, hc⟩ := hloadable.inside hac
  obtain ⟨inner', hsub, hb⟩ := hc.reaches hcb
  cases hb with
  | builtIn found =>
    rw [isBuiltIn_of_find? found] at ownb
    cases ownb
  | file _ _ unused => exact unused (heq ▸ hsub (hmem owna))

/-! ### Searching the graph -/

def includedPaths (w : World) (base : String) : List String :=
  w.files.texts.flatMap fun source =>
    match Parsed.ofSource source with
    | .ok parsed => parsed.program.filterMap fun
      | .load next _ => some (w.libraryPath base next)
      | _ => none
    | .error _ => []

variable (named : w.files.isNamed = true) (declarative : w.files.isDeclarative = true)

include named declarative

theorem exists_text (h : w.files.isFile (w.libraryPath base name) = true) :
    ∃ source ∈ w.files.texts, w.readText (w.libraryPath base name) = .ok source ∧
      Parsed.declares (Parsed.ofSource source) = true :=
  FileTree.exists_text_of_isFile named declarative w.isAbsolute_workingDirectory h

theorem mem_includedPaths (h : w.Includes base name next) (own : Library.isBuiltIn name = false) :
    w.libraryPath base next ∈ w.includedPaths base := by
  obtain ⟨source, parsed, line, htext, hread, hmem⟩ := h
  cases htext with
  | builtIn found text =>
    rw [isBuiltIn_of_find? found] at own
    cases own
  | file own read =>
    have hsource : source ∈ w.files.texts := by
      have hfile : w.files.isFile (w.libraryPath base name) = true :=
        FileTree.isFile_of_readText read
      obtain ⟨source', hmem', hread', -⟩ := exists_text named declarative hfile
      cases read.symm.trans hread'
      exact hmem'
    refine List.mem_flatMap.mpr ⟨source, hsource, ?_⟩
    rw [hread]
    exact List.mem_filterMap.mpr ⟨_, hmem, rfl⟩

/-- To show something of a load it may be supposed of the loads inside it, which start with one
more library being loaded: a way that meets no path twice comes to an end. -/
theorem search_induction (base : String) {P : List String → String → Prop}
    (step : ∀ loading name, (Library.isBuiltIn name = false →
      w.libraryPath base name ∉ loading → ∀ next, w.Includes base name next →
        P (w.libraryPath base name :: loading) next) → P loading name)
    (loading : List String) (name : String) : P loading name := by
  have search (paths : Finset String) (closed : ∀ path ∈ w.includedPaths base, path ∈ paths) :
      ∀ loading name, w.libraryPath base name ∈ paths → P loading name := by
    intro loading
    induction hk : (paths.filter (· ∉ loading)).card using Nat.strong_induction_on
      generalizing loading with
    | _ k ih =>
      intro name hname
      refine step loading name fun own unused next hnext => ?_
      refine ih _ ?_ (w.libraryPath base name :: loading) rfl next
        (closed _ (mem_includedPaths named declarative hnext own))
      rw [← hk]
      apply Finset.card_lt_card
      rw [Finset.ssubset_iff_of_subset]
      · exact ⟨w.libraryPath base name, by simp [hname, unused], by simp⟩
      · intro path hpath
        simp only [Finset.mem_filter, List.mem_cons, not_or] at hpath ⊢
        exact ⟨hpath.1, hpath.2.2⟩
  apply search (insert (w.libraryPath base name) (w.includedPaths base).toFinset)
  · intro path hpath
    simp [hpath]
  · simp

theorem loadable_of_acyclic (complete : w.Complete base name) (acyclic : w.Acyclic base name) :
    w.Loadable base [] name := by
  have search : ∀ loading name, w.Complete base name → w.Acyclic base name →
      (∀ last, ReflTransGen (w.Includes base) name last → Library.isBuiltIn last = false →
        w.libraryPath base last ∉ loading) → w.Loadable base loading name := by
    refine search_induction named declarative base fun loading name ih complete acyclic apart => ?_
    have here := complete name .refl
    cases own : Library.isBuiltIn name with
    | true =>
      rw [Provides, own, if_pos rfl] at here
      obtain ⟨library, found⟩ := Option.isSome_iff_exists.mp here
      exact .builtIn found
    | false =>
      rw [Provides, own, if_neg Bool.false_ne_true] at here
      have unused := apart name .refl own
      refine .file own here unused fun next hnext => ih own unused next hnext ?_ ?_ ?_
      · exact fun a ha => complete a (.head hnext ha)
      · exact fun a b ha => acyclic a b (.head hnext ha)
      · intro last hlast ownlast
        rw [List.mem_cons, not_or]
        have hway : TransGen (w.Includes base) name last := .head' hnext hlast
        exact ⟨(acyclic name last .refl hway own ownlast).symm, apart last (.head hnext hlast) ownlast⟩
  exact search [] name complete acyclic fun _ _ _ => List.not_mem_nil

end World

/-! ### Runs -/

/-- How a load of declarations ends: with a result, a fault, or at a library that is missing. -/
inductive Outcome.EndsLoad {α : Type} : Outcome α → Prop
  | value (a : α) : EndsLoad (.value a)
  | fault (fault : Fault) : EndsLoad (.signal (.failed fault))
  | missing (name path : String) : EndsLoad (.halted (.libraryNotFound name path))

/-- An evaluation ends like a load and leaves the world alone; it succeeds exactly if `good`. -/
def Ends {α : Type} (f : Nat → Outcome α × Machine) (m : Machine) (good : Prop) : Prop :=
  ∃ r m', Settles f (r, m') ∧ r.EndsLoad ∧ m'.world = m.world ∧
    m'.loading = m.loading ∧ (r.isValue = true ↔ good)

section
variable {site : Site} {m : Machine} {good : Prop}

theorem Ends.congr {α : Type} {f : Nat → Outcome α × Machine} {good' : Prop}
    (h : Ends f m good) (hgood : good ↔ good') : Ends f m good' := by
  obtain ⟨r, m', hsettles, hends, hworld, hloading, hr⟩ := h
  exact ⟨r, m', hsettles, hends, hworld, hloading, hr.trans hgood⟩

/-- A load that fails of itself. -/
theorem ends_of_failed {α : Type} {f : Nat → Outcome α × Machine} {r : Outcome α}
    (hf : ∀ n, f (n + 1) = (r, m)) (hends : r.EndsLoad) (failed : r.isValue = false)
    (bad : ¬good) : Ends f m good :=
  ⟨r, m, .of_succ hf, hends, rfl, rfl, by simp [failed, bad]⟩

theorem ends_literal (site : Site) (m : Machine) {e : Expr} (h : e.isLiteral = true) :
    ∃ v m', (∀ n, evalExpr site (n + 1) e m = (.value v, m')) ∧ m'.world = m.world ∧
      m'.loading = m.loading := by
  cases e with
  | number x line => exact ⟨.number x, m, fun _ => rfl, rfl, rfl⟩
  | string s line => exact ⟨.string s, m, fun _ => rfl, rfl, rfl⟩
  | bool b line => exact ⟨.bool b, m, fun _ => rfl, rfl, rfl⟩
  | function params body line => exact ⟨_, _, fun _ => rfl, rfl, rfl⟩
  | _ => cases h

theorem ends_bind (x : String) {e : Expr} (line : Int) (h : e.isLiteral = true) :
    Ends (fun n => exec site n (.bind x e line) m) m True := by
  obtain ⟨v, m', heval, hworld, hloading⟩ := ends_literal site m h
  refine ⟨.value .null, { m' with scopes := m'.scopes.set m'.current x v },
    ⟨2, fun n hn => ?_⟩, .value _, hworld, hloading, by simp [Outcome.isValue]⟩
  obtain ⟨n, rfl⟩ := Nat.exists_eq_add_of_le' hn
  simp only [exec, Eval.bind_apply, heval]
  rfl

theorem ends_load {name : String} (line : Int)
    (h : Ends (fun n => load site n name m) m good) :
    Ends (fun n => exec site n (.load name line) m) m good := by
  obtain ⟨r, m', hsettles, hends, hworld, hloading, hgood⟩ := h
  cases hends with
  | value exports =>
    have hexec : Settles (fun n => exec site n (.load name line) m)
        (.value .null, m'.enter ⟨Assoc.insertAll exports [], some m'.current⟩) :=
      hsettles.last fun n hn => by simp only [exec, hn]; rfl
    exact ⟨_, _, hexec, .value _, hworld, hloading, hgood⟩
  | fault fault =>
    have hexec : Settles (fun n => exec site n (.load name line) m)
        (.signal (.failed (fault.locate (some line) (some site.file))), m') :=
      hsettles.last fun n hn => by simp only [exec, hn]
    exact ⟨_, _, hexec, .fault _, hworld, hloading, hgood⟩
  | missing missed path =>
    have hexec : Settles (fun n => exec site n (.load name line) m)
        (.halted (.libraryNotFound missed path), m') :=
      hsettles.last fun n hn => by simp only [exec, hn]
    exact ⟨_, _, hexec, .missing _ _, hworld, hloading, hgood⟩

/-- A program of declarations ends if its loads end, and succeeds if all of them do. -/
theorem ends_program {w : World} {loading : List String} {goods : String → Prop}
    {ss : List Stmt} (declarations : ∀ s ∈ ss, s.isDeclaration = true)
    (loads : ∀ next line, .load next line ∈ ss → ∀ m : Machine, m.world = w →
      m.loading = loading → Ends (fun n => load site n next m) m (goods next))
    (last : Value) (hworld : m.world = w) (hloading : m.loading = loading) :
    Ends (fun n => runProgram site n ss last m) m
      (∀ next line, .load next line ∈ ss → goods next) := by
  induction ss generalizing last m with
  | nil =>
    exact ⟨.value last, m, .of_succ fun _ => rfl, .value _, rfl, rfl, by simp [Outcome.isValue]⟩
  | cons s ss ih =>
    have first : Ends (fun n => exec site n s m) m (∀ next line, s = .load next line → goods next) := by
      cases s with
      | bind x e line =>
        refine (ends_bind x line (declarations _ List.mem_cons_self)).congr ?_
        simp
      | load next line =>
        refine (ends_load line (loads next line List.mem_cons_self m hworld hloading)).congr ?_
        simp
      | _ => exact absurd (declarations _ List.mem_cons_self) (by simp [Stmt.isDeclaration])
    obtain ⟨r, m', hsettles, hends, hworld', hloading', hgood⟩ := first
    cases hends with
    | value v =>
      obtain ⟨r, m'', hrest, hends, hworld'', hloading'', hgood'⟩ :=
        ih (fun t ht => declarations t (List.mem_cons_of_mem _ ht))
          (fun next line ht => loads next line (List.mem_cons_of_mem _ ht)) v
          (hworld'.trans hworld) (hloading'.trans hloading)
      have hrun : Settles (fun n => runProgram site n (s :: ss) last m) (r, m'') :=
        hsettles.step (fun n hn => by simp only [runProgram, hn]) hrest
      refine ⟨r, m'', hrun, hends, hworld''.trans hworld',
        hloading''.trans hloading', hgood'.trans ⟨fun h next line ht => ?_, fun h next line ht => ?_⟩⟩
      · rcases List.mem_cons.mp ht with rfl | ht
        · exact hgood.mp rfl next line rfl
        · exact h next line ht
      · exact h next line (List.mem_cons_of_mem _ ht)
    | fault fault =>
      refine ⟨_, _, hsettles.last fun n hn => by simp only [runProgram, hn], .fault fault, hworld',
        hloading', ⟨(fun hr => by cases hr), fun h => ?_⟩⟩
      exact hgood.mpr fun next line ht => h next line (ht ▸ List.mem_cons_self)
    | missing name path =>
      refine ⟨_, _, hsettles.last fun n hn => by simp only [runProgram, hn], .missing name path,
        hworld', hloading', ⟨(fun hr => by cases hr), fun h => ?_⟩⟩
      exact hgood.mpr fun next line ht => h next line (ht ▸ List.mem_cons_self)

theorem ends_text {w : World} {loading : List String} {goods : String → Prop}
    {key name source : String} {parsed : Parsed} (natives : List (String × Value))
    (read : Parsed.ofSource source = .ok parsed) (clean : parsed.errors = [])
    (declarations : ∀ s ∈ parsed.program, s.isDeclaration = true)
    (loads : ∀ next line, .load next line ∈ parsed.program → ∀ m : Machine, m.world = w →
      m.loading = key :: loading →
      Ends (fun n => load { site with file := key } n next m) m (goods next))
    (hworld : m.world = w) (hloading : m.loading = loading) (unused : key ∉ loading) :
    Ends (fun n => runLibrary site n key name source natives m) m
      (∀ next line, .load next line ∈ parsed.program → goods next) := by
  obtain ⟨r, m', hsettles, hends, hworld', hloading', hgood⟩ :=
    ends_program (m := m.beginLibrary key natives) declarations loads .null hworld
      (by rw [Machine.beginLibrary_loading, hloading])
  have hrun : Settles (fun n => runLibrary site n key name source natives m)
      (r.map fun _ => m'.scopes.exports m'.current (m.addRoots natives).1,
        m'.endLibrary m key) := by
    refine hsettles.last fun n hn => ?_
    rw [runLibrary_of_clean site n name natives read clean (hloading ▸ unused), hn]
  have hback : (m'.endLibrary m key).loading = m.loading := by
    rw [Machine.endLibrary, hloading', Machine.beginLibrary_loading, List.erase_cons_head]
  refine ⟨_, _, hrun, ?_, hworld', hback, ?_⟩
  · cases hends with
    | value v => exact .value _
    | fault fault => exact .fault _
    | missing missed path => exact .missing _ _
  · rw [← hgood]
    cases r <;> rfl

theorem plan_builtIn {name : String} {library : Library}
    (found : Library.find? name = some library) :
    m.plan site name =
      match library.source with
      | none => .hand library.exports
      | some source => .run library.fullName source library.exports := by
  cases hs : library.source <;>
    simp only [Machine.plan, World.isBuiltIn_of_find? found, found, hs, if_true]

theorem ends_hand {name : String} {library : Library}
    (found : Library.find? name = some library) (hs : library.source = none) :
    Ends (fun n => load site n name m) m True := by
  refine ⟨.value (m.instantiate library.exports).1, (m.instantiate library.exports).2,
    .of_succ fun n => ?_, .value _, rfl, rfl, by simp [Outcome.isValue]⟩
  rw [load_succ, plan_builtIn found, hs]

/-- The text of the one built-in library that has a text is no file, so it is not being loaded
while files are. -/
theorem ends_builtIn {name : String} {library : Library}
    (found : Library.find? name = some library)
    (files : ∀ key ∈ m.loading, Path.isAbsolute key = true) :
    Ends (fun n => load site n name m) m True := by
  cases hs : library.source with
  | none => exact ends_hand found hs
  | some source =>
    cases Library.eq_furrball_of_source (Library.mem_all_of_find? found) hs
    cases hs
    have relative : Path.isAbsolute Library.furrball.fullName = false := by decide +kernel
    have unused : Library.furrball.fullName ∉ m.loading := by
      intro hkey
      rw [files _ hkey] at relative
      cases relative
    have htext : Ends
        (fun n => runLibrary site n Library.furrball.fullName name Library.furrballSource
          (m.instantiate Library.furrball.exports).1 (m.instantiate Library.furrball.exports).2)
        (m.instantiate Library.furrball.exports).2
        (∀ next line, .load next line ∈ Library.furrballProgram → True) := by
      refine ends_text _ Library.ofSource_furrball rfl ?_ ?_ rfl rfl unused
      · decide
      · intro next line hnext m _ _
        obtain ⟨rfl, -⟩ : next = "nya:clawtility" ∧ line = 2 := by
          simpa [Library.furrballProgram] using hnext
        exact ends_hand Library.find?_clawtility rfl
    obtain ⟨r, m', hsettles, hends, hworld, hloading, hgood⟩ := htext
    refine ⟨r, m', hsettles.last fun n hn => ?_, hends, hworld, hloading, by simpa using hgood⟩
    rw [load_succ, plan_builtIn found]
    exact hn

end

section
variable {site : Site} {m : Machine} {name : String} (own : Library.isBuiltIn name = false)

include own

theorem plan_used (used : m.world.libraryPath site.baseDirectory name ∈ m.loading) :
    m.plan site name =
      .fault (.recursiveInclude (m.world.libraryPath site.baseDirectory name)) := by
  rw [World.libraryPath] at used ⊢
  simp [Machine.plan, own, used]

theorem plan_missing (unused : m.world.libraryPath site.baseDirectory name ∉ m.loading)
    (missing : m.world.files.isFile (m.world.libraryPath site.baseDirectory name) = false) :
    m.plan site name =
      .halt (.libraryNotFound name (m.world.libraryPath site.baseDirectory name)) := by
  rw [World.libraryPath] at unused missing ⊢
  simp [Machine.plan, own, unused, missing]

theorem plan_text {source : String}
    (unused : m.world.libraryPath site.baseDirectory name ∉ m.loading)
    (found : m.world.files.isFile (m.world.libraryPath site.baseDirectory name) = true)
    (read : m.world.readText (m.world.libraryPath site.baseDirectory name) = .ok source) :
    m.plan site name = .run (m.world.libraryPath site.baseDirectory name) source [] := by
  rw [World.libraryPath] at unused found read ⊢
  simp [Machine.plan, own, unused, found, read]

end

namespace World

variable {w : World} {base name source : String} {parsed : Parsed} {loading : List String}

/-- A file is loadable if it is there, is not being loaded, and what it includes is loadable. -/
theorem loadable_iff (own : Library.isBuiltIn name = false)
    (found : w.files.isFile (w.libraryPath base name) = true)
    (unused : w.libraryPath base name ∉ loading)
    (read : w.readText (w.libraryPath base name) = .ok source)
    (parse : Parsed.ofSource source = .ok parsed) :
    (∀ next line, .load next line ∈ parsed.program →
        w.Loadable base (w.libraryPath base name :: loading) next) ↔
      w.Loadable base loading name := by
  constructor
  · refine fun h => .file own found unused fun next hnext => ?_
    obtain ⟨source', parsed', line, htext, hparse, hmem⟩ := hnext
    cases htext with
    | builtIn found' text =>
      rw [isBuiltIn_of_find? found'] at own
      cases own
    | file _ read' =>
      cases read.symm.trans read'
      cases parse.symm.trans hparse
      exact h next line hmem
  · intro h next line hmem
    cases h with
    | builtIn found' =>
      rw [isBuiltIn_of_find? found'] at own
      cases own
    | file _ _ _ inner => exact inner next ⟨source, parsed, line, .file own read, parse, hmem⟩

theorem isAbsolute_libraryPath (w : World) (base name : String) :
    Path.isAbsolute (w.libraryPath base name) = true := by
  obtain ⟨start, cs, last, hs, -, hpath⟩ :=
    Path.ofLibrary_under w.isAbsolute_workingDirectory base name
  rw [libraryPath, hpath]
  exact Path.isAbsolute_under hs

/-- A load while files are being loaded ends, and succeeds exactly if the library is loadable. -/
theorem ends_library (named : w.files.isNamed = true)
    (declarative : w.files.isDeclarative = true) (base : String) :
    ∀ (loading : List String) (name : String) (site : Site) (m : Machine),
      site.baseDirectory = base → m.world = w → m.loading = loading →
      (∀ key ∈ loading, Path.isAbsolute key = true) →
      Ends (fun n => load site n name m) m (w.Loadable base loading name) := by
  refine search_induction named declarative base fun loading name ih => ?_
  rintro site m rfl rfl rfl files
  cases own : Library.isBuiltIn name with
  | true =>
    cases found : Library.find? name with
    | some library =>
      exact (ends_builtIn found files).congr (iff_of_true trivial (.builtIn found))
    | none =>
      have hplan : m.plan site name = .fault (.unknownLibrary name) := by
        rw [Machine.plan, own, if_pos rfl, found]
      refine ends_of_failed (fun n => by rw [load_succ, hplan]; rfl) (.fault _) rfl fun h => ?_
      have here := h.provides
      rw [Provides, own, if_pos rfl, found] at here
      cases here
  | false =>
    by_cases used : m.world.libraryPath site.baseDirectory name ∈ m.loading
    · refine ends_of_failed (fun n => by rw [load_succ, plan_used own used]; rfl) (.fault _) rfl
        fun h => ?_
      cases h with
      | builtIn found =>
        rw [isBuiltIn_of_find? found] at own
        cases own
      | file _ _ unused => exact absurd used unused
    cases found : m.world.files.isFile (m.world.libraryPath site.baseDirectory name) with
    | false =>
      refine ends_of_failed (fun n => by rw [load_succ, plan_missing own used found])
        (.missing _ _) rfl fun h => ?_
      have here := h.provides
      rw [Provides, own, if_neg Bool.false_ne_true, found] at here
      cases here
    | true =>
      obtain ⟨source, -, read, hdeclares⟩ := exists_text named declarative found
      obtain ⟨parsed, parse, clean, declarations⟩ := Parsed.declares_iff.mp hdeclares
      have inside : ∀ key ∈ m.world.libraryPath site.baseDirectory name :: m.loading,
          Path.isAbsolute key = true := by
        intro key hkey
        rcases List.mem_cons.mp hkey with rfl | hkey
        · exact isAbsolute_libraryPath _ _ _
        · exact files key hkey
      have text : Ends (fun n => runLibrary site n (m.world.libraryPath site.baseDirectory name)
          name source [] m) m (∀ next line, .load next line ∈ parsed.program →
            m.world.Loadable site.baseDirectory
              (m.world.libraryPath site.baseDirectory name :: m.loading) next) := by
        refine ends_text [] parse clean declarations ?_ rfl rfl used
        intro next line hnext m' hworld hloading
        exact ih own used next ⟨source, parsed, line, .file own read, parse, hnext⟩ _ m' rfl hworld
          hloading inside
      obtain ⟨r, m', hsettles, hends, hworld, hloading, hgood⟩ := text
      refine ⟨r, m', hsettles.last fun n hn => ?_, hends, hworld, hloading,
        hgood.trans (loadable_iff own found used read parse)⟩
      have none : m.instantiate [] = ([], m) := rfl
      simp only [load_succ, plan_text own used found read, none]
      exact hn

end World

/-! ### The libraries being loaded -/

theorem Job.final_loading (n : Nat) (j : Job) : (j.final n).loading = j.machine.loading := by
  obtain ⟨site, task, m⟩ := j
  cases task with
  | expr e => exact ((brackets n).expr site e m).loading_eq
  | all es => exact ((brackets n).all site es m).loading_eq
  | entries line es done => exact ((brackets n).entries site line es done m).loading_eq
  | loop body => exact ((brackets n).loop site body m).loading_eq
  | call f args line => exact ((brackets n).call site f args line m).loading_eq
  | block ss last => exact ((brackets n).block site ss last m).loading_eq
  | stmt t => exact ((brackets n).stmt site t m).loading_eq
  | library name => exact ((brackets n).library site name m).loading_eq
  | text key name source natives =>
    exact ((brackets n).body site key name source natives m).loading_eq
  | program ss last => exact ((brackets n).program site ss last m).loading_eq

/-- What a job starts begins with the libraries that the job began with, and with one more if it is
the program of a library. -/
theorem Starts.loading {n : Nat} {j j' : Job} (h : Starts n j j') :
    j'.machine.loading = j.machine.loading ∨
      ∃ key ∉ j.machine.loading, j'.machine.loading = key :: j.machine.loading := by
  cases h with
  | right done | yes done | no done | arguments done | position done | tail done | entry done =>
    exact .inl (((brackets n).expr _ _).of_eq done).loading_eq
  | call done done' =>
    have hr := ((brackets n).expr _ _).of_eq done
    exact .inl (hr.trans (((brackets n).all _ _).of_eq done')).loading_eq
  | rest keyed usable valued =>
    have hr := ((brackets n).expr _ _).of_eq keyed
    exact .inl (hr.trans (((brackets n).expr _ _).of_eq valued)).loading_eq
  | again done goesOn =>
    exact .inl ((Eval.returns_nested ((brackets n).block _ _ _)).of_eq done).loading_eq
  | next done | onward done => exact .inl (((brackets n).stmt _ _).of_eq done).loading_eq
  | run read clean unused => exact .inr ⟨_, unused, rfl⟩
  | _ => exact .inl rfl

theorem Nested.nodup_loading {n n' : Nat} {j j' : Job} (h : Nested n j n' j')
    (hj : j.machine.loading.Nodup) : j'.machine.loading.Nodup := by
  induction h with
  | refl => exact hj
  | step starts _ ih =>
    apply ih
    rcases starts.loading with heq | ⟨key, unused, heq⟩
    · rwa [heq]
    · rw [heq]
      exact List.nodup_cons.mpr ⟨unused, hj⟩

/-! ### Loads of declarations -/

/-- In a tree whose programs only declare, a load with no library being loaded ends, with a result
or a fault or at a library that is missing. It succeeds exactly if all libraries that includes lead
to are there and no way leads from a file to itself; and the libraries being loaded are different
ones all the time. -/
theorem loads_of_declarations_end {m : Machine} (site : Site) (name : String)
    (named : m.world.files.isNamed = true) (declarative : m.world.files.isDeclarative = true)
    (idle : m.loading = []) :
    (∃ r m', Settles (fun n => load site n name m) (r, m') ∧ r.EndsLoad ∧
      (r.isValue = true ↔ m.world.Complete site.baseDirectory name ∧
        m.world.Acyclic site.baseDirectory name)) ∧
    ∀ n n' j, Nested n ⟨site, .library name, m⟩ n' j →
      j.machine.loading.Nodup ∧ (j.final n').loading.Nodup := by
  constructor
  · obtain ⟨r, m', hsettles, hends, -, -, hgood⟩ :=
      World.ends_library named declarative site.baseDirectory [] name site m rfl rfl idle
        fun _ hkey => nomatch hkey
    refine ⟨r, m', hsettles, hends, hgood.trans ⟨fun h => ⟨h.complete, h.acyclic⟩, fun h => ?_⟩⟩
    exact World.loadable_of_acyclic named declarative h.1 h.2
  · intro n n' j h
    have hnodup := h.nodup_loading (by rw [idle]; exact List.nodup_nil)
    exact ⟨hnodup, by rwa [j.final_loading n']⟩

/-- A library that includes itself. -/
def worldOfCycle : World := .start (.ofText "include \"lib\";") []

theorem includes_worldOfCycle : worldOfCycle.Includes "/" "lib" "lib" := by
  have hpath : worldOfCycle.libraryPath "/" "lib" = "/lib.meow" := Path.ofLibrary_lib
  have hread : worldOfCycle.readText "/lib.meow" =
      .ok (String.ofList (Text.unifyNewlines "include \"lib\";".toList)) := by
    have hnul : Path.hasNul "/lib.meow" = false := by decide
    have hfile : worldOfCycle.files.read "/lib.meow" =
        .ok (Text.Utf8.encode "include \"lib\";") := FileTree.read_ofText _
    simp [World.readText, FileTree.readText, hnul, hfile, Text.Utf8.decode_encode]
  have hparse : Parsed.ofSource (String.ofList (Text.unifyNewlines "include \"lib\";".toList)) =
      .ok ⟨[.load "lib" 1], []⟩ := by decide +kernel
  exact ⟨_, _, 1, .file (by decide) (hpath ▸ hread), hparse, List.mem_singleton_self _⟩

theorem loads_of_declarations_end_at_a_cycle :
    worldOfCycle.files.isNamed = true ∧ worldOfCycle.files.isDeclarative = true ∧
      ∃ r m', Settles (fun n => load ⟨"main", "/"⟩ n "lib" (.start worldOfCycle)) (r, m') ∧
        r.EndsLoad ∧ r.isValue = false := by
  have named : worldOfCycle.files.isNamed = true := by decide
  have declarative : worldOfCycle.files.isDeclarative = true := by decide +kernel
  obtain ⟨⟨r, m', hsettles, hends, hgood⟩, -⟩ :=
    loads_of_declarations_end ⟨"main", "/"⟩ "lib" (m := .start worldOfCycle) named declarative rfl
  refine ⟨named, declarative, r, m', hsettles, hends, ?_⟩
  rw [Bool.eq_false_iff, ne_eq, hgood]
  rintro ⟨-, acyclic⟩
  have own : Library.isBuiltIn "lib" = false := by decide
  exact acyclic "lib" "lib" .refl (.single includes_worldOfCycle) own own rfl

end MeowLang
