import MeowLang.Proofs.File.Path
import MeowLang.Proofs.Text.Utf8
import MeowLang.World

/-! The files that library names lead to. A path in normal form is walked name by name, so a file
that it leads to stands in the tree under just these names; and the last name of a library's path
has the ending of the files that hold programs. -/
namespace MeowLang

namespace Path

/-! ### The last name of a library's path -/

/-- The last piece of a text with an ending has the ending. -/
theorem split_append_last (p : String) {s : String} (hs : '/' ∉ s.toList) :
    ∃ front last, Text.split (p ++ s) "/" = front ++ [last ++ s] := by
  have whole : s.toList.splitOn '/' = [s.toList] := by
    have hpieces : ∀ cs ∈ [s.toList], '/' ∉ cs := by simpa using hs
    have h := List.splitOn_intercalate '/' hpieces (by simp)
    simpa using h
  have pieces : ∀ cs : List Char, ∃ front last,
      (cs ++ s.toList).splitOn '/' = front ++ [last ++ s.toList] := by
    intro cs
    induction cs with
    | nil => exact ⟨[], [], whole⟩
    | cons c cs ih =>
      obtain ⟨front, last, h⟩ := ih
      rw [List.cons_append, List.splitOn_cons_eq_if_modifyHead, h]
      split
      · exact ⟨[] :: front, last, rfl⟩
      · cases front with
        | nil => exact ⟨[], c :: last, rfl⟩
        | cons first front => exact ⟨(c :: first) :: front, last, rfl⟩
  obtain ⟨front, last, h⟩ := pieces p.toList
  refine ⟨front.map String.ofList, String.ofList last, ?_⟩
  rw [slash_eq, Text.split_singleton, String.toList_append, h]
  simp

theorem collapse_concat {c : String} (hc : Plain c) (rooted : Bool) (stack parts : List String) :
    ∃ front, collapse rooted stack (parts ++ [c]) = front ++ [c] := by
  induction parts generalizing stack with
  | nil => exact ⟨stack.reverse, by simp [collapse, hc.ne_empty, hc.ne_dot, hc.ne_dots]⟩
  | cons p parts ih =>
    simp only [List.cons_append, collapse]
    split
    · exact ih _
    split
    · split
      · exact ih _
      · split <;> exact ih _
    · exact ih _

theorem join_suffix (base name : String) :
    ∃ p, join base (name ++ sourceSuffix) = p ++ sourceSuffix := by
  unfold join
  split
  · exact ⟨name, rfl⟩
  split
  · exact ⟨base ++ name, (String.append_assoc ..).symm⟩
  · exact ⟨base ++ "/" ++ name, (String.append_assoc ..).symm⟩

theorem plain_suffix {c : String} (h : '/' ∉ (c ++ sourceSuffix).toList) :
    Plain (c ++ sourceSuffix) := by
  have long {s : String} (hs : s.length < 5) : c ++ sourceSuffix ≠ s := by
    intro heq
    have hlength := congrArg String.length heq
    rw [String.length_append, show sourceSuffix.length = 5 from rfl] at hlength
    omega
  exact ⟨long (by decide), long (by decide), long (by decide), h⟩

/-- The path of a library is in normal form, and its last name ends like a program's. -/
theorem ofLibrary_under {workingDirectory : String} (h : isAbsolute workingDirectory = true)
    (base name : String) :
    ∃ start cs last, IsStart start ∧ (∀ c ∈ cs ++ [last ++ sourceSuffix], Plain c) ∧
      ofLibrary workingDirectory base name = under start (cs ++ [last ++ sourceSuffix]) := by
  have habs : isAbsolute (join workingDirectory (join base (name ++ sourceSuffix))) = true :=
    isAbsolute_join h
  obtain ⟨q, hq⟩ := join_suffix base name
  obtain ⟨p, hp⟩ := join_suffix workingDirectory q
  rw [hq, hp] at habs
  obtain ⟨front, last, hsplit⟩ := split_append_last p (s := sourceSuffix) (by decide)
  have slashless : ∀ c ∈ front ++ [last ++ sourceSuffix], '/' ∉ c.toList := by
    intro c hc
    rw [← hsplit, slash_eq] at hc
    exact Text.not_mem_of_mem_split hc
  have hlast : Plain (last ++ sourceSuffix) := plain_suffix (slashless _ (by simp))
  obtain ⟨cs, hcs⟩ := collapse_concat hlast true [] front
  refine ⟨_, cs, last, root_of_isAbsolute habs, ?_, ?_⟩
  · rw [← hcs]
    exact plain_of_mem_collapse (by simp) slashless
  · rw [ofLibrary, hq, hp, normalize_eq habs, hsplit, hcs]

/-! ### Resolved paths -/

theorem mem_of_mem_collapse {c : String} {stack parts : List String}
    (h : c ∈ collapse true stack parts) : c ∈ stack ∨ c ∈ parts := by
  induction parts generalizing stack with
  | nil => exact .inl (List.mem_reverse.mp h)
  | cons p parts ih =>
    unfold collapse at h
    split at h
    · exact (ih h).imp_right (List.mem_cons_of_mem _)
    split at h
    · split at h
      · exact (ih h).imp_right (List.mem_cons_of_mem _)
      split at h
      · rename_i hdots
        rw [beq_iff_eq] at hdots
        rcases ih h with hstack | hparts
        · rcases List.mem_cons.mp hstack with rfl | hstack
          · exact .inl (hdots ▸ List.mem_cons_self)
          · exact .inl hstack
        · exact .inr (List.mem_cons_of_mem _ hparts)
      · exact (ih h).imp (List.mem_cons_of_mem _) (List.mem_cons_of_mem _)
    · rcases ih h with hstack | hparts
      · rcases List.mem_cons.mp hstack with rfl | hstack
        · exact .inr List.mem_cons_self
        · exact .inl hstack
      · exact .inr (List.mem_cons_of_mem _ hparts)

/-- Seen from anywhere, a path leads from the root along plain names, which stand in the path. -/
theorem exists_resolve (workingDirectory p : String) :
    ∃ cs, (∀ c ∈ cs, Plain c) ∧ resolve workingDirectory p = under "/" cs ∧
      (hasNul (join workingDirectory p) = false → ∀ c ∈ cs, hasNul c = false) := by
  refine ⟨_, plain_of_mem_collapse (by simp) fun c hc => ?_, rfl, fun hnul c hc => ?_⟩
  · rw [slash_eq] at hc
    exact Text.not_mem_of_mem_split hc
  · have hpiece := (mem_of_mem_collapse hc).resolve_left List.not_mem_nil
    exact hasNul_of_mem_split hnul hpiece

end Path

namespace FileTree

variable {t : FileTree}

/-! ### Walking to a file -/

theorem mem_nodes_of_node? {place : List String} {node : FileNode}
    (h : t.node? place = some node) (hnode : node ≠ .directory) : (place, node) ∈ t.nodes := by
  unfold node? at h
  split at h
  · cases h
    exact absurd rfl hnode
  · obtain ⟨before, after, hnodes, -⟩ := List.lookup_eq_some_iff.mp h
    simp [hnodes]

/-- A walk along plain names ends under these names. -/
theorem mem_of_walk {place cs found : List String} {node : FileNode}
    (hcs : ∀ c ∈ cs, Path.Plain c) (h : t.walk place cs = .ok (.found found node))
    (hnode : node ≠ .directory) : (place ++ cs, node) ∈ t.nodes := by
  induction cs generalizing place with
  | nil =>
    cases h
    exact absurd rfl hnode
  | cons c cs ih =>
    have hc := hcs c List.mem_cons_self
    simp only [walk, beq_iff_eq, hc.ne_dot, hc.ne_dots, if_false] at h
    split at h
    · cases h
    split at h
    · have hin := ih (fun d hd => hcs d (List.mem_cons_of_mem _ hd)) h
      rwa [List.append_assoc] at hin
    · rename_i hfound
      cases h
      exact mem_nodes_of_node? hfound hnode
    · rename_i hfound
      cases h
      exact mem_nodes_of_node? hfound hnode
    all_goals cases h

theorem components_under {start : String} {cs : List String} (hs : Path.IsStart start)
    (hcs : ∀ c ∈ cs, Path.Plain c) : components (Path.under start cs) = cs := by
  obtain ⟨k, hk⟩ := Path.split_under hs hcs
  rw [components, hk, List.filter_append, List.filter_replicate_of_neg (by simp),
    List.nil_append, List.filter_eq_self]
  intro c hc
  simpa using (hcs c hc).ne_empty

theorem mem_of_locate_under {start : String} {cs place : List String} {node : FileNode}
    (hs : Path.IsStart start) (hcs : ∀ c ∈ cs, Path.Plain c)
    (h : t.locate (Path.under start cs) = .ok (.found place node)) (hnode : node ≠ .directory) :
    (cs, node) ∈ t.nodes := by
  unfold locate follow at h
  rw [components_under hs hcs, Path.endsWith_under hs hcs, Path.isAbsolute_under hs] at h
  split at h
  · cases h
  split at h
  · cases h
  cases cs with
  | nil =>
    have hroot : [] = place ∧ FileNode.directory = node := by simpa [walk] using h
    exact absurd hroot.2.symm hnode
  | cons c cs => exact mem_of_walk hcs h hnode

/-- What is read is the file that a path leads to. -/
theorem read_eq_ok_iff {path : String} {octets : List UInt8} :
    t.read path = .ok octets ↔ ∃ place, t.locate path = .ok (.found place (.file octets)) := by
  unfold read
  cases t.locate path with
  | error fault => simp [bind, Except.bind]
  | ok target =>
    cases target with
    | free place => simp [bind, Except.bind]
    | found place node => cases node <;> simp [bind, Except.bind]

theorem mem_of_read_under {start : String} {cs : List String} {octets : List UInt8}
    (hs : Path.IsStart start) (hcs : ∀ c ∈ cs, Path.Plain c)
    (h : t.read (Path.under start cs) = .ok octets) : (cs, .file octets) ∈ t.nodes := by
  obtain ⟨place, hlocate⟩ := read_eq_ok_iff.mp h
  exact mem_of_locate_under hs hcs hlocate nofun

theorem hasNul_of_readText {path text : String} (h : t.readText path = .ok text) :
    Path.hasNul path = false := by
  unfold readText at h
  split at h
  · cases h
  · simp_all

theorem mem_of_readText_under {start text : String} {cs : List String} (hs : Path.IsStart start)
    (hcs : ∀ c ∈ cs, Path.Plain c) (h : t.readText (Path.under start cs) = .ok text) :
    ∃ octets, (cs, .file octets) ∈ t.nodes := by
  unfold readText at h
  split at h
  · cases h
  split at h
  · cases h
  · rename_i hread
    exact ⟨_, mem_of_read_under hs hcs hread⟩

/-- Why a text cannot be read: there is no such path, it cannot be opened, or the file that it
leads to holds no text. -/
theorem readText_error {path : String} {h : Halt} (hr : t.readText path = .error h) :
    ('\x00' ∈ path.toList ∧ h = .nulInPath) ∨ (∃ fault, h = .unopened path fault) ∨
      ∃ octets fault, t.read path = .ok octets ∧ (∀ s, octets ≠ Text.Utf8.encode s) ∧
        h = .undecodable fault := by
  unfold readText at hr
  split at hr
  · rename_i hnul
    cases hr
    exact .inl ⟨Path.hasNul_iff.mp hnul, rfl⟩
  split at hr
  · rename_i fault _
    cases hr
    exact .inr (.inl ⟨fault, rfl⟩)
  · rename_i octets hread
    split at hr
    · rename_i fault hdecode
      cases hr
      refine .inr (.inr ⟨octets, fault, hread, ?_, rfl⟩)
      rintro s rfl
      rw [Text.Utf8.decode_encode] at hdecode
      cases hdecode
    · cases hr

theorem readText_of_noText {path : String} {octets : List UInt8} (hnul : '\x00' ∉ path.toList)
    (hread : t.read path = .ok octets) (htext : ∀ s, octets ≠ Text.Utf8.encode s) :
    ∃ fault, t.readText path = .error (.undecodable fault) := by
  cases hdecode : Text.Utf8.decode octets with
  | ok s => exact absurd (Text.Utf8.decode_eq_ok_iff.mp hdecode) (htext s)
  | error fault => exact ⟨fault, by simp [readText, Path.hasNul, hnul, hread, hdecode]⟩

end FileTree

theorem World.isAbsolute_workingDirectory (w : World) :
    Path.isAbsolute w.workingDirectory = true := by
  rw [Path.isAbsolute_iff]
  exact ⟨_, String.toList_append⟩

end MeowLang
