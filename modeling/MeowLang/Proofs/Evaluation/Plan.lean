import MeowLang.Eval.Machine
import MeowLang.Proofs.File.Tree
import MeowLang.Proofs.Library

/-! What a load finds. A library that is not built in is a file, and a file that holds the octets of
a text is a library with that text. -/
namespace MeowLang

theorem FileTree.isFile_of_read {t : FileTree} {path : String} {octets : List UInt8}
    (h : t.read path = .ok octets) : t.isFile path = true := by
  obtain ⟨place, hlocate⟩ := read_eq_ok_iff.mp h
  rw [isFile, hlocate]

/-- A file that holds the octets of a text is a library with that text. -/
theorem Machine.plan_file {m : Machine} {site : Site} {name path text : String}
    (hname : Library.isBuiltIn name = false)
    (hpath : Path.ofLibrary m.world.workingDirectory site.baseDirectory name = path)
    (hnul : Path.hasNul path = false) (hkey : path ∉ m.loading)
    (hread : m.world.files.read path = .ok (Text.Utf8.encode text)) :
    m.plan site name = .run path (String.ofList (Text.unifyNewlines text.toList)) [] := by
  have hfile : m.world.files.isFile path = true := FileTree.isFile_of_read hread
  have htext : m.world.readText path = .ok (String.ofList (Text.unifyNewlines text.toList)) := by
    simp [World.readText, FileTree.readText, hnul, hread, Text.Utf8.decode_encode]
  simp [Machine.plan, hname, hpath, hkey, hfile, htext]

/-- The text of a library that is not built in comes from the file that its name means, and runs on
top of nothing. -/
theorem Machine.file_of_plan {m : Machine} {site : Site} {name path source : String}
    {exports : List (String × Export)} (hname : Library.isBuiltIn name = false)
    (hplan : m.plan site name = .run path source exports) :
    path = Path.ofLibrary m.world.workingDirectory site.baseDirectory name ∧ exports = [] := by
  unfold plan at hplan
  rw [hname, if_neg Bool.false_ne_true] at hplan
  dsimp only at hplan
  split at hplan
  · cases hplan
  split at hplan
  · cases hplan
  split at hplan <;> cases hplan
  exact ⟨rfl, rfl⟩

namespace Library

theorem isBuiltIn_fullName (l : Library) : isBuiltIn l.fullName = true :=
  List.any_eq_true.mpr ⟨"nya:", List.mem_cons_self, by simp [fullName]⟩

theorem plan_furrball (m : Machine) (site : Site) :
    m.plan site "nya:furrball" = .run "nya:furrball" furrballSource furrball.exports := by
  have hprefix : isBuiltIn "nya:furrball" = true := isBuiltIn_fullName furrball
  rw [Machine.plan, find?, hprefix]
  rfl

theorem plan_clawtility (m : Machine) (site : Site) :
    m.plan site "nya:clawtility" = .hand clawtility.exports := by
  have hprefix : isBuiltIn "nya:clawtility" = true := isBuiltIn_fullName clawtility
  rw [Machine.plan, hprefix, find?_clawtility]
  rfl

end Library

/-! ### One library -/

/-- A tree whose only file is a library at the root. -/
def FileTree.ofText (text : String) : FileTree :=
  ⟨[(["lib.meow"], .file (Text.Utf8.encode text))], []⟩

theorem FileTree.read_ofText (text : String) :
    (ofText text).read "/lib.meow" = .ok (Text.Utf8.encode text) := by
  have hplain : ∀ c ∈ ["lib.meow"], Path.Plain c :=
    List.forall_mem_singleton.mpr ⟨by decide, by decide, by decide, by decide⟩
  have hparts : components "/lib.meow" = ["lib.meow"] := components_under (.inl rfl) hplain
  have hslash : "/lib.meow".endsWith "/" = false := Path.endsWith_under (.inl rfl) hplain
  have hroot : Path.isAbsolute "/lib.meow" = true := Path.isAbsolute_iff.mpr ⟨_, rfl⟩
  have hpath : ¬ longestPath < "/lib.meow".utf8ByteSize := by decide
  have hname : ¬ longestName < "lib.meow".utf8ByteSize := by decide
  have hlocate : (ofText text).locate "/lib.meow" =
      .ok (.found ["lib.meow"] (.file (Text.Utf8.encode text))) := by
    simp [locate, follow, hparts, hslash, hroot, hpath, walk, hname, node?, ofText]
  exact read_eq_ok_iff.mpr ⟨_, hlocate⟩

theorem Path.ofLibrary_lib : Path.ofLibrary "/" "/" "lib" = "/lib.meow" := by decide +kernel

theorem Machine.plan_ofText {m : Machine} {text : String} (file : String)
    (hfiles : m.world.files = .ofText text) (hloading : m.loading = []) :
    m.plan ⟨file, "/"⟩ "lib" =
      .run "/lib.meow" (String.ofList (Text.unifyNewlines text.toList)) [] := by
  have hname : Library.isBuiltIn "lib" = false := by decide
  have hroot : m.world.workingDirectory = "/" := by
    rw [World.workingDirectory, hfiles]
    rfl
  have hread : m.world.files.read "/lib.meow" = .ok (Text.Utf8.encode text) := by
    rw [hfiles]
    exact FileTree.read_ofText text
  have hkey : "/lib.meow" ∉ m.loading := by
    rw [hloading]
    exact List.not_mem_nil
  apply Machine.plan_file hname _ (by decide) hkey hread
  rw [hroot]
  exact Path.ofLibrary_lib

end MeowLang
