import Mathlib.Control.Monad.Basic
import MeowLang.CommandLine
import MeowLang.Proofs.Editor.Index
import MeowLang.Proofs.Evaluation.Nested
import MeowLang.Proofs.Evaluation.Plan

/-! Which files loads lead to. A run looks for all libraries in the directory of its script, also
for those that libraries load. An editor looks for them in the directory of the document that loads
them. So the two follow the loads of a document alike if it stands beside the script, and otherwise
they do not. -/
namespace MeowLang

/-! ### Runs -/

theorem Starts.baseDirectory {n : Nat} {j j' : Job} (h : Starts n j j') :
    j'.site.baseDirectory = j.site.baseDirectory := by
  cases h <;> rfl

/-- All texts of a run look for libraries in one directory. -/
theorem Nested.baseDirectory {n n' : Nat} {j j' : Job} (h : Nested n j n' j') :
    j'.site.baseDirectory = j.site.baseDirectory := by
  induction h with
  | refl => rfl
  | step starts _ ih => rw [ih, starts.baseDirectory]

namespace CommandLine

def job (w : World) (script : String) (program : Program) : Job :=
  ⟨⟨script, scriptDirectory w script⟩, .program program .null, .start w⟩

/-- The files whose texts are run: the script itself, and the libraries that are found in files. -/
inductive Documents (w : World) (script : String) (program : Program) (n : Nat) : String → Prop
  | script : Documents w script program n (Path.normalize (Path.join w.workingDirectory script))
  | library {n' : Nat} {site : Site} {name path source : String} {m : Machine}
      {exports : List (String × Export)}
      (nested : Nested n (job w script program) n' ⟨site, .library name, m⟩)
      (own : Library.isBuiltIn name = false) (plan : m.plan site name = .run path source exports) :
      Documents w script program n path

end CommandLine

/-- The documents of a run are paths in normal form. -/
theorem CommandLine.Documents.normal {w : World} {script document : String} {program : Program}
    {n : Nat} (h : Documents w script program n document) :
    ∃ p, Path.isAbsolute p = true ∧ document = Path.normalize p := by
  cases h with
  | script => exact ⟨_, Path.isAbsolute_join w.isAbsolute_workingDirectory, rfl⟩
  | @library _ site name _ _ m _ nested own plan =>
    exact ⟨_, Path.isAbsolute_join m.world.isAbsolute_workingDirectory,
      (Machine.file_of_plan own plan).1⟩

theorem CommandLine.Documents.under {w : World} {script document : String} {program : Program}
    {n : Nat} (h : Documents w script program n document) (hroot : Path.root document = "/") :
    ∃ cs, (∀ c ∈ cs, Path.Plain c) ∧ document = Path.under "/" cs := by
  obtain ⟨p, hp, rfl⟩ := h.normal
  obtain ⟨cs, hcs, hnormal⟩ := Path.exists_under hp
  rw [hnormal, Path.root_under (Path.root_of_isAbsolute hp) hcs] at hroot
  exact ⟨cs, hcs, hroot ▸ hnormal⟩

theorem CommandLine.scriptDirectory_under (w : World) (script : String) :
    ∃ start cs, Path.IsStart start ∧ (∀ c ∈ cs, Path.Plain c) ∧
      scriptDirectory w script = Path.under start cs := by
  have habsolute : Path.isAbsolute (Path.join w.workingDirectory script) = true :=
    Path.isAbsolute_join w.isAbsolute_workingDirectory
  have hstart := Path.root_of_isAbsolute habsolute
  obtain ⟨cs, hcs, hnormal⟩ := Path.exists_under habsolute
  refine ⟨_, cs.dropLast, hstart, fun c hc => hcs c (List.dropLast_subset _ hc), ?_⟩
  rw [scriptDirectory, hnormal, Path.parent_under hstart hcs]

/-! ### Editors -/

namespace Editor.Indexing

theorem resolve_of_root {files : FileTree} {p : String} (hnul : Path.hasNul p = false)
    (hroot : Path.root p = "/") : resolve files p = .ok (Path.normalize p) := by
  rw [resolve, hnul, if_neg Bool.false_ne_true, Path.resolve_eq_normalize hroot]

/-- An editor looks for the libraries of a document in the document's own directory. -/
theorem target_ofPath {cs : List String} (hcs : ∀ c ∈ cs, Path.Plain c) (files : FileTree)
    (hnul : Path.hasNul (Path.under "/" cs) = false) {name : String}
    (hname : Path.hasNul name = false) (hroot : Path.root name ≠ "//") (workingDirectory : String) :
    target files (Uri.ofPath (Path.under "/" cs)) name =
      .ok (Path.ofLibrary workingDirectory (Path.parent (Path.under "/" cs)) name) := by
  have hstart : Path.IsStart "/" := .inl rfl
  have hfront : ∀ c ∈ cs.dropLast, Path.Plain c := fun c hc => hcs c (List.dropLast_subset _ hc)
  have hpath : Uri.path (Uri.ofPath (Path.under "/" cs)) = .ok (Path.under "/" cs) := by
    obtain ⟨rest, hrest⟩ := Path.isAbsolute_iff.mp (Path.isAbsolute_under hstart)
    rw [Uri.path_ofPath hrest, Path.tidy_under hstart hcs]
  have hdocument : resolve files (Path.under "/" cs) = .ok (Path.under "/" cs) := by
    rw [resolve_of_root hnul (Path.root_under hstart hcs), Path.normalize_under hstart hcs]
  have hparent : Path.hasNul (Path.parent (Path.under "/" cs)) = false := by
    rw [Path.hasNul_under hstart] at hnul
    rw [Path.parent_under hstart hcs, Path.hasNul_under hstart]
    exact fun c hc => hnul c (List.dropLast_subset _ hc)
  have hsuffixed : Path.hasNul (name ++ Path.sourceSuffix) = false :=
    Path.hasNul_append hname (by decide)
  have hlibrary : Path.root (Path.join (Path.parent (Path.under "/" cs))
      (name ++ Path.sourceSuffix)) = "/" := by
    rw [Path.parent_under hstart hcs]
    exact Path.root_join hfront hroot
  have habsolute : Path.isAbsolute (Path.parent (Path.under "/" cs)) = true := by
    rw [Path.parent_under hstart hcs]
    exact Path.isAbsolute_under hstart
  rw [Path.ofLibrary_eq habsolute, ← resolve_of_root (Path.hasNul_join hparent hsuffixed) hlibrary,
    target, hpath]
  show resolve files (Path.under "/" cs) >>= _ = _
  rw [hdocument]
  rfl

/-- The libraries of a document are those of another directory only if it is the document's own. -/
theorem target_agrees_iff {cs : List String} (hcs : ∀ c ∈ cs, Path.Plain c) (files : FileTree)
    (hnul : Path.hasNul (Path.under "/" cs) = false) {start : String} {base : List String}
    (hs : Path.IsStart start) (hbase : ∀ c ∈ base, Path.Plain c) (workingDirectory : String) :
    (∀ name, Path.hasNul name = false → Path.root name ≠ "//" →
        target files (Uri.ofPath (Path.under "/" cs)) name =
          .ok (Path.ofLibrary workingDirectory (Path.under start base) name)) ↔
      Path.parent (Path.under "/" cs) = Path.under start base := by
  constructor
  · intro hagree
    -- one plain name tells the directories apart
    have hroot : Path.root "x" ≠ "//" := by decide
    have hplain : Path.Plain ("x" ++ Path.sourceSuffix) :=
      ⟨by decide, by decide, by decide, by decide⟩
    have hfront : ∀ c ∈ cs.dropLast, Path.Plain c := fun c hc => hcs c (List.dropLast_subset _ hc)
    have hsame := hagree "x" (by decide) hroot
    rw [target_ofPath hcs files hnul (by decide) hroot workingDirectory,
      Path.parent_under (.inl rfl) hcs] at hsame
    have hparents := congrArg Path.parent (Except.ok.inj hsame)
    rw [Path.parent_ofLibrary (.inl rfl) hfront hplain, Path.parent_ofLibrary hs hbase hplain]
      at hparents
    rw [Path.parent_under (.inl rfl) hcs, hparents]
  · intro hdirectory name hname hroot
    rw [← hdirectory]
    exact target_ofPath hcs files hnul hname hroot workingDirectory

end Editor.Indexing

/-- A run looks for all libraries in the directory of its script, and an editor looks for the
libraries of a document in the document's own directory. So they follow the loads of the script,
or of a library that was loaded, to the same files exactly if this document stands in the
directory of the script. -/
theorem loads_are_followed_alike_beside_the_script (w : World) (script : String)
    (program : Program) (n : Nat) (document : String)
    (hdocument : CommandLine.Documents w script program n document)
    (hroot : Path.root document = "/") (hnul : Path.hasNul document = false) (n' : Nat) (j : Job)
    (hj : Nested n (CommandLine.job w script program) n' j) (files : FileTree) :
    let followed := fun name => Editor.Indexing.target files (Uri.ofPath document) name
    let path := fun directory name =>
      Path.ofLibrary j.machine.world.workingDirectory directory name
    j.site.baseDirectory = CommandLine.scriptDirectory w script ∧
      (∀ name, Path.hasNul name = false → Path.root name ≠ "//" →
        followed name = .ok (path (Path.parent document) name)) ∧
      ((∀ name, Path.hasNul name = false → Path.root name ≠ "//" →
          followed name = .ok (path j.site.baseDirectory name)) ↔
        Path.parent document = CommandLine.scriptDirectory w script) := by
  intro followed path
  have hsite : j.site.baseDirectory = CommandLine.scriptDirectory w script := hj.baseDirectory
  obtain ⟨cs, hcs, rfl⟩ := hdocument.under hroot
  refine ⟨hsite, fun name hname hslash => ?_, ?_⟩
  · exact Editor.Indexing.target_ofPath hcs files hnul hname hslash _
  · obtain ⟨start, base, hs, hbase, hscript⟩ := CommandLine.scriptDirectory_under w script
    rw [hsite, hscript]
    exact Editor.Indexing.target_agrees_iff hcs files hnul hs hbase _

/-! ### A library in another directory -/

/-- A library in a directory below that of the script. -/
def worldOfSubdirectory : World :=
  .start ⟨[(["w"], .directory), (["w", "sub"], .directory),
      (["w", "sub", "a.meow"], .file (Text.Utf8.encode "include \"b\";"))], ["w"]⟩ []

theorem scriptDirectory_main :
    CommandLine.scriptDirectory worldOfSubdirectory "main.meow" = "/w" := by decide +kernel

theorem documents_subdirectory :
    CommandLine.Documents worldOfSubdirectory "main.meow" [.load "sub/a" 1] 9 "/w/sub/a.meow" := by
  have hpath : Path.ofLibrary "/w" "/w" "sub/a" = "/w/sub/a.meow" := by decide +kernel
  have hread : worldOfSubdirectory.files.read "/w/sub/a.meow" =
      .ok (Text.Utf8.encode "include \"b\";") := by decide +kernel
  have hname : Library.isBuiltIn "sub/a" = false := by decide +kernel
  have hplan : (Machine.start worldOfSubdirectory).plan ⟨"main.meow", "/w"⟩ "sub/a" =
      .run "/w/sub/a.meow" _ [] :=
    Machine.plan_file hname hpath (by decide) List.not_mem_nil hread
  rw [← scriptDirectory_main] at hplan
  exact .library (.step .opening (.step .load (.refl _ _))) hname hplan

theorem parent_subdirectory : Path.parent "/w/sub/a.meow" ≠
    CommandLine.scriptDirectory worldOfSubdirectory "main.meow" := by
  have hparent : Path.parent "/w/sub/a.meow" = "/w/sub" := by decide
  rw [hparent, scriptDirectory_main]
  decide

theorem loads_are_followed_alike_beside_the_script_but_not_below :
    let w := worldOfSubdirectory
    let j := CommandLine.job w "main.meow" [.load "sub/a" 1]
    CommandLine.Documents w "main.meow" [.load "sub/a" 1] 9 "/w/sub/a.meow" ∧
      Path.root "/w/sub/a.meow" = "/" ∧ Path.hasNul "/w/sub/a.meow" = false ∧ Nested 9 j 9 j ∧
      Editor.Indexing.target w.files (Uri.ofPath "/w/sub/a.meow") "b" =
        .ok (Path.ofLibrary "/w" "/w/sub" "b") ∧
      ¬ ∀ name, Path.hasNul name = false → Path.root name ≠ "//" →
        Editor.Indexing.target w.files (Uri.ofPath "/w/sub/a.meow") name =
          .ok (Path.ofLibrary j.machine.world.workingDirectory j.site.baseDirectory name) := by
  intro w j
  have hroot : Path.root "/w/sub/a.meow" = "/" := by decide
  have hnul : Path.hasNul "/w/sub/a.meow" = false := by decide
  have hparent : Path.parent "/w/sub/a.meow" = "/w/sub" := by decide
  obtain ⟨-, hfollowed, hagree⟩ := loads_are_followed_alike_beside_the_script w "main.meow"
    [.load "sub/a" 1] 9 "/w/sub/a.meow" documents_subdirectory hroot hnul 9 j (.refl _ _) w.files
  have hb := hfollowed "b" (by decide) (by decide)
  rw [hparent] at hb
  exact ⟨documents_subdirectory, hroot, hnul, .refl _ _, hb, fun h =>
    parent_subdirectory (hagree.mp h)⟩

theorem ofLibrary_subdirectory :
    Path.ofLibrary "/w" "/w/sub" "b" ≠ Path.ofLibrary "/w" "/w" "b" := by decide +kernel

/-- Not all loads that a document makes are followed to the files that the run finds: the library
below makes one that an editor looks for below, and the run beside the script. -/
theorem loads_are_not_always_followed_alike :
    ¬ ∀ (w : World) (script : String) (program : Program) (n : Nat) (document text : String),
      CommandLine.Documents w script program n document → Path.root document = "/" →
      Path.hasNul document = false → w.readText document = .ok text → ∀ (n' : Nat) (j : Job),
      Nested n (CommandLine.job w script program) n' j → ∀ name, Editor.Loads text name →
      Path.hasNul name = false → Path.root name ≠ "//" →
      Editor.Indexing.target w.files (Uri.ofPath document) name =
        .ok (Path.ofLibrary j.machine.world.workingDirectory j.site.baseDirectory name) := by
  intro hall
  have hroot : Path.root "/w/sub/a.meow" = "/" := by decide
  have hnul : Path.hasNul "/w/sub/a.meow" = false := by decide
  have hread : (worldOfSubdirectory.readText "/w/sub/a.meow").toOption = some "include \"b\";" := by
    decide +kernel
  have hloads : Editor.Loads "include \"b\";" "b" :=
    (Editor.mem_includes_iff "" _ _).mp (by decide +kernel)
  have hbeside := hall _ _ _ 9 _ _ documents_subdirectory hroot hnul (eq_ok_of_toOption hread) 9 _
    (.refl _ _) "b" hloads (by decide) (by decide)
  obtain ⟨cs, hcs, hunder⟩ := documents_subdirectory.under hroot
  rw [hunder] at hnul
  have hbelow := Editor.Indexing.target_ofPath hcs worldOfSubdirectory.files hnul
    (show Path.hasNul "b" = false by decide) (by decide) "/w"
  have hparent : Path.parent "/w/sub/a.meow" = "/w/sub" := by decide
  have hsite : (CommandLine.job worldOfSubdirectory "main.meow"
      [.load "sub/a" 1]).site.baseDirectory = "/w" := scriptDirectory_main
  rw [← hunder, hparent, hbeside, hsite] at hbelow
  exact ofLibrary_subdirectory (Except.ok.inj hbelow).symm

end MeowLang
