import MeowLang.Editor.Server
import MeowLang.Proofs.Editor.Numerals

/-! Looking through a workspace. Its programs are read one after the other. A program that cannot be
opened is passed over; one that is no text, or that something in it or in what it loads keeps from
being indexed, stops the rest. If there is none of these, every program that can be read is indexed
in the end. -/
namespace MeowLang.Editor

variable {σ ε : Type}

/-! ### Programs of a workspace -/

namespace Server

/-- A path below the workspace that ends like a program. -/
def IsProgram (files : FileTree) (s : Server σ) (path : String) : Prop :=
  ∃ root place rest node, s.root = some root ∧ root.isEmpty = false ∧
    Path.hasNul root = false ∧ files.locate (Path.tidy root) = .ok (.found place .directory) ∧
    (place ++ rest, node) ∈ files.nodes ∧
    rest.getLast?.any (·.endsWith Path.sourceSuffix) = true ∧ path = below (Path.tidy root) rest

variable {files : FileTree} {s : Server σ} {path : String}

/-- What is found below a directory. -/
theorem mem_sources {directory : String} {place : List String} {paths : List String}
    (hfound : files.locate directory = .ok (.found place .directory))
    (h : sources files directory = .ok paths) :
    path ∈ paths ↔ ∃ rest node, (place ++ rest, node) ∈ files.nodes ∧
      rest.getLast?.any (·.endsWith Path.sourceSuffix) = true ∧ path = below directory rest := by
  simp only [sources, hfound, Except.ok.injEq] at h
  rw [← h, List.mem_filterMap]
  constructor
  · rintro ⟨⟨p, node⟩, hmem, hp⟩
    simp only [Option.ite_none_right_eq_some, Bool.and_eq_true, List.isPrefixOf_iff_prefix,
      decide_eq_true_eq, Option.some.injEq] at hp
    obtain ⟨⟨⟨⟨rest, rfl⟩, hlength⟩, hending⟩, rfl⟩ := hp
    have hne : rest ≠ [] := by
      rintro rfl
      simp at hlength
    rw [List.getLast?_append_of_ne_nil _ hne] at hending
    exact ⟨rest, node, hmem, hending, by rw [List.drop_left]⟩
  · rintro ⟨rest, node, hmem, hending, rfl⟩
    have hne : rest ≠ [] := by
      rintro rfl
      cases hending
    refine ⟨_, hmem, ?_⟩
    rw [List.getLast?_append_of_ne_nil _ hne, hending, List.drop_left, if_pos]
    have hlength := List.length_pos_iff.mpr hne
    simp only [Bool.and_true, Bool.and_eq_true, List.isPrefixOf_iff_prefix, List.prefix_append,
      decide_eq_true_eq, List.length_append, true_and]
    omega

end Server

/-! ### What stops the search -/

/-- What there is about a program that stops the rest: it has no address, it is no text, or in it or
in a file that loads lead to there is an obstacle. -/
inductive Hinders (files : FileTree) (path : String) : Refusal → Prop
  | relative (relative : Path.isAbsolute path = false) : Hinders files path .relativePath
  | unread {halt : Halt} (read : files.readText path = .error halt)
      (other : ∀ fault, halt ≠ .unopened path fault) : Hinders files path (.halted halt)
  | inside {text document content : String} {r : Refusal} (read : files.readText path = .ok text)
      (reached : Reached files (Uri.ofPath path) text document content)
      (obstacle : Obstacle files document content r) : Hinders files path r

/-- A program that does not stop the rest: it is opened as a text if it is opened at all, and from
there loads lead to no text that begins with a malformed numeral and to no name with a NUL. -/
structure Passable (files : FileTree) (path : String) : Prop where
  absolute : Path.isAbsolute path = true
  opened : ∀ halt, files.readText path = .error halt → ∃ fault, halt = .unopened path fault
  numerals : ∀ text document content, files.readText path = .ok text →
    Reached files (Uri.ofPath path) text document content → ¬ BreaksEarly content
  names : ∀ text document content name, files.readText path = .ok text →
    Reached files (Uri.ofPath path) text document content → Loads content name →
      Path.hasNul name = false

section

variable {files : FileTree} {path text : String} {paths : List String} {d d' : Desk}
  {z : Except Refusal Unit × Desk}

theorem Passable.not_hinders (h : Passable files path) (r : Refusal) : ¬ Hinders files path r := by
  intro hhinders
  cases hhinders with
  | relative relative =>
    rw [h.absolute] at relative
    cases relative
  | unread read other =>
    obtain ⟨fault, hfault⟩ := h.opened _ read
    exact other fault hfault
  | inside read reached obstacle =>
    cases obstacle with
    | numeral refused => exact h.numerals _ _ _ read reached (breaksEarly_of_refuse refused)
    | load loads target =>
      have haddress : ∃ p, Uri.path (Uri.ofPath path) = .ok p ∧
          Path.hasNul (Path.join (FileTree.pathTo files.workingDirectory) p) = false := by
        obtain ⟨rest, hrest⟩ := Path.isAbsolute_iff.mp h.absolute
        refine ⟨_, Uri.path_ofPath hrest, ?_⟩
        rw [Path.join, if_pos (Path.isAbsolute_tidy h.absolute)]
        exact Path.hasNul_tidy h.absolute (FileTree.hasNul_of_readText read)
      obtain ⟨path, hpath⟩ := reached.exists_target_of_names (fun _ _ => haddress) loads
        (h.names _ _ _ _ read reached loads)
      rw [target] at hpath
      cases hpath

/-! ### Reading the programs -/

theorem Survey.symbols_symbols (known : List Symbol) (s : Survey) :
    s.symbols (s.symbols known) = s.symbols known := by
  cases s <;> rfl

theorem Reached.eq_of_readText {uri document content next : String}
    (h : Reached files uri text document content) (hother : document ≠ uri)
    (hpath : Uri.ofPath path = document) (hread : files.readText path = .ok next) :
    content = next := by
  cases h with
  | self => exact absurd rfl hother
  | file _ _ _ _ read =>
    rw [← Uri.ofPath_injective hpath, hread] at read
    cases read
    rfl

/-- Taking in a text, be it of the program or of another document, leaves to a program what its text
shows. -/
theorem Taken.symbols_survey {uri content : String} (h : Taken files d uri content z)
    (hread : files.readText path = .ok text) (hself : Uri.ofPath path = uri → content = text) :
    (survey (Uri.ofPath path) text).symbols (z.2.index.symbols (Uri.ofPath path)) =
      (survey (Uri.ofPath path) text).symbols (d.index.symbols (Uri.ofPath path)) := by
  by_cases huri : Uri.ofPath path = uri
  · rw [hself huri, ← huri] at h
    rw [Index.symbols_of_lookup h.self, Survey.symbols_symbols]
  rcases h.symbols_cases huri with heq | ⟨hbefore, content', hfollowed, hafter⟩
  · rw [heq]
  · have hcontent := hfollowed.reached.eq_of_readText huri rfl hread
    rw [hafter, hbefore, hcontent, Survey.symbols_symbols]

/-- Programs have been read one after the other, up to the first that stops the rest. A program that
is known by its text alone stays so, wherever it was met. -/
structure Scanned (files : FileTree) (paths : List String) (d : Desk)
    (z : Except Refusal Unit × Desk) : Prop where
  kept : ∀ document symbols, d.index.documents.lookup document = some symbols →
    z.2.index.documents.lookup document = some symbols ∨
      ∃ path ∈ paths, ∃ text, Uri.ofPath path = document ∧ files.readText path = .ok text ∧
        z.2.index.documents.lookup document = some ((survey document text).symbols symbols)
  stable : ∀ path text, files.readText path = .ok text →
    (survey (Uri.ofPath path) text).symbols (z.2.index.symbols (Uri.ofPath path)) =
      (survey (Uri.ofPath path) text).symbols (d.index.symbols (Uri.ofPath path))
  shown : z.1 = .ok () → ∀ path ∈ paths, ∀ text, files.readText path = .ok text →
    z.2.index.documents.lookup (Uri.ofPath path) =
      some ((survey (Uri.ofPath path) text).symbols (d.index.symbols (Uri.ofPath path)))
  skipped : z.1 = .ok () → ∀ path ∈ paths, ∀ halt, files.readText path = .error halt →
    (∃ fault, halt = .unopened path fault) ∧ Note.skipped path halt ∈ z.2.notes
  stopped : ∀ r, z.1 = .error r → ∃ path ∈ paths, Hinders files path r
  notes : d.notes <+: z.2.notes

theorem Scanned.nil : Scanned files [] d (.ok (), d) :=
  ⟨fun _ _ hl => .inl hl, fun _ _ _ => rfl, fun _ => by simp, fun _ => by simp, by simp,
    List.prefix_rfl⟩

theorem Scanned.stop {r : Refusal} (h : Scanned files [path] d (.error r, d')) :
    Scanned files (path :: paths) d (.error r, d') := by
  have hmem {p : String} (hp : p ∈ [path]) : p ∈ path :: paths :=
    List.mem_cons.mpr (.inl (List.mem_singleton.mp hp))
  refine ⟨fun document symbols hl => ?_, h.stable, by simp, by simp, fun r' hr' => ?_, h.notes⟩
  · refine (h.kept _ _ hl).imp_right ?_
    rintro ⟨p, hp, hread⟩
    exact ⟨p, hmem hp, hread⟩
  · obtain ⟨p, hp, hhinders⟩ := h.stopped r' hr'
    exact ⟨p, hmem hp, hhinders⟩

theorem Scanned.cons (h : Scanned files [path] d (.ok (), d')) (h' : Scanned files paths d' z) :
    Scanned files (path :: paths) d z := by
  constructor
  · intro document symbols hl
    rcases h.kept _ _ hl with hl | ⟨p, hp, text, haddress, hread, hl⟩
    · refine (h'.kept _ _ hl).imp_right ?_
      rintro ⟨p, hp, hread⟩
      exact ⟨p, List.mem_cons_of_mem _ hp, hread⟩
    · refine .inr
        ⟨p, List.mem_cons.mpr (.inl (List.mem_singleton.mp hp)), text, haddress, hread, ?_⟩
      rcases h'.kept _ _ hl with hl | ⟨q, -, text', haddress', hread', hl⟩
      · exact hl
      · rw [Uri.ofPath_injective (haddress'.trans haddress.symm), hread] at hread'
        cases hread'
        rw [hl, Survey.symbols_symbols]
  · exact fun p text hread => (h'.stable p text hread).trans (h.stable p text hread)
  · intro hz p hp text hread
    by_cases hlater : p ∈ paths
    · rw [h'.shown hz p hlater text hread, h.stable p text hread]
    · have heq : p = path := (List.mem_cons.mp hp).resolve_right hlater
      have hfirst := h.shown rfl p (List.mem_singleton.mpr heq) text hread
      refine (h'.kept _ _ hfirst).resolve_right ?_
      rintro ⟨q, hq, _, haddress, -⟩
      exact hlater (Uri.ofPath_injective haddress ▸ hq)
  · intro hz p hp halt hread
    rcases List.mem_cons.mp hp with rfl | hp
    · exact (h.skipped rfl p List.mem_cons_self halt hread).imp_right (h'.notes.mem ·)
    · exact h'.skipped hz p hp halt hread
  · intro r hr
    obtain ⟨p, hp, hhinders⟩ := h'.stopped r hr
    exact ⟨p, List.mem_cons_of_mem _ hp, hhinders⟩
  · exact h.notes.trans h'.notes

theorem path_of_unopened {p : String} {fault : FileFault}
    (h : files.readText path = .error (.unopened p fault)) : p = path := by
  rcases FileTree.readText_error h with ⟨-, h⟩ | ⟨_, h⟩ | ⟨_, _, -, -, h⟩
  · cases h
  · cases h
    rfl
  · cases h

namespace Server

variable {s : Server σ}

/-- A program stops the rest, is passed over, or is taken in. -/
theorem run_scanFile_cases (files : FileTree) (path : String) (d : Desk) :
    (∃ r, Hinders files path r ∧ (scanFile files path).run d = (.error r, d)) ∨
    (∃ fault, files.readText path = .error (.unopened path fault) ∧
      (scanFile files path).run d =
        (.ok (), ⟨d.index, d.notes ++ [.skipped path (.unopened path fault)]⟩)) ∨
    ∃ text, files.readText path = .ok text ∧
      Taken files d (Uri.ofPath path) text ((scanFile files path).run d) := by
  cases habsolute : Path.isAbsolute path with
  | false =>
    refine .inl ⟨_, .relative habsolute, ?_⟩
    simp only [scanFile, habsolute]
    rfl
  | true =>
    cases hread : files.readText path with
    | ok text =>
      refine .inr (.inr ⟨text, rfl, ?_⟩)
      have hrun : (scanFile files path).run d = (Indexing.update files (Indexing.ampleDepth files)
          (Uri.ofPath path) text).run d := by
        simp only [scanFile, habsolute, hread]
        rfl
      rw [hrun]
      exact takesAny files _ d _ _
    | error halt =>
      by_cases hunopened : ∃ fault, halt = .unopened path fault
      · obtain ⟨fault, rfl⟩ := hunopened
        refine .inr (.inl ⟨fault, rfl, ?_⟩)
        simp only [scanFile, habsolute, hread]
        rfl
      · refine .inl ⟨_, .unread hread fun fault heq => hunopened ⟨fault, heq⟩, ?_⟩
        cases halt with
        | unopened p fault =>
          rw [path_of_unopened hread] at hunopened
          exact absurd ⟨fault, rfl⟩ hunopened
        | _ =>
          simp only [scanFile, habsolute, hread]
          rfl

theorem scanned_scanFile (files : FileTree) (path : String) (d : Desk) :
    Scanned files [path] d ((scanFile files path).run d) := by
  rcases run_scanFile_cases files path d with
    ⟨r, hhinders, hrun⟩ | ⟨fault, hread, hrun⟩ | ⟨text, hread, htaken⟩
  · rw [hrun]
    refine ⟨fun _ _ hl => .inl hl, fun _ _ _ => rfl, by simp, by simp, ?_, List.prefix_rfl⟩
    rintro _ ⟨⟩
    exact ⟨path, List.mem_cons_self, hhinders⟩
  · rw [hrun]
    refine ⟨fun _ _ hl => .inl hl, fun _ _ _ => rfl, ?_, ?_, by simp, List.prefix_append _ _⟩
    · intro _ p hp text htext
      rw [List.mem_singleton.mp hp, hread] at htext
      cases htext
    · intro _ p hp halt hread'
      rw [List.mem_singleton] at hp
      subst hp
      rw [hread] at hread'
      cases hread'
      exact ⟨⟨fault, rfl⟩, List.mem_append_right _ List.mem_cons_self⟩
  · refine ⟨?_, ?_, ?_, ?_, ?_, htaken.notes⟩
    · intro document symbols hl
      by_cases hself : document = Uri.ofPath path
      · subst hself
        refine .inr ⟨path, List.mem_cons_self, text, rfl, hread, ?_⟩
        rw [htaken.self, Index.symbols_of_lookup hl]
      · exact .inl (htaken.kept _ _ hself hl)
    · intro p text' hread'
      refine htaken.symbols_survey hread' fun hsame => ?_
      rw [Uri.ofPath_injective hsame, hread] at hread'
      exact Except.ok.inj hread'
    · intro _ p hp text' hread'
      rw [List.mem_singleton] at hp
      subst hp
      rw [hread] at hread'
      cases hread'
      exact htaken.self
    · intro _ p hp halt hread'
      rw [List.mem_singleton.mp hp, hread] at hread'
      cases hread'
    · intro r hr
      obtain ⟨document, content, hfollowed, hobstacle⟩ := htaken.refused r hr
      exact ⟨path, List.mem_cons_self, .inside hread hfollowed.reached hobstacle⟩

theorem scanned_scanAll (files : FileTree) (paths : List String) (d : Desk) :
    Scanned files paths d ((paths.forM (scanFile files)).run d) := by
  induction paths generalizing d with
  | nil => exact .nil
  | cons path paths ih =>
    have hfirst := scanned_scanFile files path d
    rw [List.forM]
    refine Indexing.run_bind_of (fun r d' hrun => ?_) fun _ d' hrun => ?_
    · rw [hrun] at hfirst
      exact hfirst.stop
    · rw [hrun] at hfirst
      exact hfirst.cons (ih d')

theorem sources_cases (files : FileTree) (directory : String) :
    (files.locate directory = .error .nameTooLong ∧ ∃ r, sources files directory = .error r) ∨
    ∃ paths, sources files directory = .ok paths ∧ ∀ path, path ∈ paths ↔
      ∃ place rest node, files.locate directory = .ok (.found place .directory) ∧
        (place ++ rest, node) ∈ files.nodes ∧
        rest.getLast?.any (·.endsWith Path.sourceSuffix) = true ∧ path = below directory rest := by
  cases hsources : sources files directory with
  | error r =>
    refine .inl ⟨?_, r, rfl⟩
    rw [sources] at hsources
    split at hsources
    · cases hsources
    · assumption
    · cases hsources
  | ok paths =>
    refine .inr ⟨paths, rfl, fun path => ?_⟩
    by_cases hfound : ∃ place, files.locate directory = .ok (.found place .directory)
    · obtain ⟨place, hplace⟩ := hfound
      rw [mem_sources hplace hsources]
      constructor
      · rintro ⟨rest, node, hrest⟩
        exact ⟨place, rest, node, hplace, hrest⟩
      · rintro ⟨place', rest, node, hplace', hrest⟩
        rw [hplace] at hplace'
        cases hplace'
        exact ⟨rest, node, hrest⟩
    · have hnone : paths = [] := by
        rw [sources] at hsources
        split at hsources
        · rename_i place hplace
          exact absurd ⟨place, hplace⟩ hfound
        · cases hsources
        · exact (Except.ok.inj hsources).symm
      rw [hnone]
      constructor
      · exact fun hpath => absurd hpath List.not_mem_nil
      · rintro ⟨place, _, _, hplace, -⟩
        exact absurd ⟨place, hplace⟩ hfound

/-- Looking through a workspace for the first time: its programs are read one after the other,
unless the name of the directory is too long. -/
theorem scan_cases (files : FileTree) (h : s.scanned = false) :
    (∃ root r, s.root = some root ∧ files.locate (Path.tidy root) = .error .nameTooLong ∧
      s.scan files = ⟨.error r, [], { s with scanned := true }⟩) ∨
    ∃ paths z, (∀ path, path ∈ paths ↔ s.IsProgram files path) ∧
      Scanned files paths ⟨s.index, []⟩ z ∧ s.scan files = { s with scanned := true }.adopt z := by
  obtain ⟨index, held, root, scanned⟩ := s
  cases h
  cases root with
  | none =>
    refine .inr ⟨[], _, fun path => ?_, .nil, rfl⟩
    simp [IsProgram]
  | some root =>
    by_cases hidle : (root.isEmpty || Path.hasNul root) = true
    · refine .inr ⟨[], _, fun path => ?_, .nil, ?_⟩
      · rw [Bool.or_eq_true] at hidle
        rcases hidle with hempty | hnul <;> simp_all [IsProgram]
      · simp only [scan, Bool.false_or, hidle]
        rfl
    · simp only [scan, Bool.false_or, hidle, scanDirectory]
      rw [Bool.or_eq_true, not_or, Bool.not_eq_true, Bool.not_eq_true] at hidle
      rcases sources_cases files (Path.tidy root) with
        ⟨hlong, r, hsources⟩ | ⟨paths, hsources, hpaths⟩
      · refine .inl ⟨root, r, rfl, hlong, ?_⟩
        rw [hsources]
        rfl
      · refine .inr ⟨paths, _, fun path => ?_, scanned_scanAll files paths _, ?_⟩
        · rw [hpaths]
          constructor
          · rintro ⟨place, rest, node, hrest⟩
            exact ⟨root, place, rest, node, rfl, hidle.1, hidle.2, hrest⟩
          · rintro ⟨_, place, rest, node, ⟨⟩, -, -, hrest⟩
            exact ⟨place, rest, node, hrest⟩
        · rw [hsources]
          rfl

theorem scan_of_scanned (h : s.scanned = true) : s.scan files = ⟨.ok (), [], s⟩ := by
  obtain ⟨index, held, root, scanned⟩ := s
  cases h
  cases root <;> rfl

/-- Programs that are all passable are all read. -/
theorem scan_of_passable (hscanned : s.scanned = false)
    (hroot : ∀ root, s.root = some root →
      files.locate (Path.tidy root) ≠ .error .nameTooLong)
    (hprograms : ∀ path, s.IsProgram files path → Passable files path) :
    (s.scan files).answer = .ok () ∧ ∀ path, s.IsProgram files path →
      (∀ content, files.readText path = .ok content →
        (s.scan files).server.index.documents.lookup (Uri.ofPath path) =
          some ((survey (Uri.ofPath path) content).symbols (s.index.symbols (Uri.ofPath path)))) ∧
      ∀ halt, files.readText path = .error halt →
        Note.skipped path halt ∈ (s.scan files).notes := by
  rcases scan_cases files hscanned with
    ⟨path, r, hpath, hlong, -⟩ | ⟨paths, ⟨answer, d⟩, hpaths, hseen, hscan⟩
  · exact absurd hlong (hroot path hpath)
  have hanswer : answer = .ok () := by
    cases answer with
    | ok => rfl
    | error r =>
      obtain ⟨path, hpath, hhinders⟩ := hseen.stopped r rfl
      exact absurd hhinders ((hprograms path ((hpaths path).mp hpath)).not_hinders r)
  subst hanswer
  rw [hscan]
  refine ⟨rfl, fun path hprogram => ⟨fun content hread => ?_, fun halt hread => ?_⟩⟩
  · exact hseen.shown rfl path ((hpaths path).mpr hprogram) content hread
  · exact (hseen.skipped rfl path ((hpaths path).mpr hprogram) halt hread).2

theorem symbolAt_of_word {W : Workspace σ ε} {uri word : String} {caret : Caret}
    (hword : W.wordAt files s.held uri caret = .ok word) (hsome : word.isEmpty = false) :
    s.symbolAt W files uri caret = ⟨(s.scan files).answer.map fun _ =>
      (s.scan files).server.index.lookup word, (s.scan files).notes, (s.scan files).server⟩ := by
  simp only [symbolAt, hword, hsome]
  rfl

end Server

end

/-! ### The first question -/

/-- The first question about a word has an answer if the workspace can be looked for and each of its
programs is passable. Then every program that can be read is indexed, with what its text shows or,
if a numeral in it is malformed, what was known; and every other program is noted. This is so in
whatever order the tree lists the programs, and whatever the word comes from. -/
theorem programs_are_indexed_by_a_question (W : Workspace σ ε) (files : FileTree) (s : Server σ)
    (uri word : String) (caret : Caret) (hscanned : s.scanned = false)
    (hword : W.wordAt files s.held uri caret = .ok word) (hsome : word.isEmpty = false)
    (hroot : ∀ root, s.root = some root → files.locate (Path.tidy root) ≠ .error .nameTooLong)
    (hprograms : ∀ path, s.IsProgram files path → Passable files path) :
    (s.symbolAt W files uri caret).answer =
      .ok ((s.symbolAt W files uri caret).server.index.lookup word) ∧
    ∀ path, s.IsProgram files path →
      (∀ content, files.readText path = .ok content →
        (s.symbolAt W files uri caret).server.index.documents.lookup (Uri.ofPath path) =
          some ((survey (Uri.ofPath path) content).symbols (s.index.symbols (Uri.ofPath path)))) ∧
      ∀ halt, files.readText path = .error halt →
        Note.skipped path halt ∈ (s.symbolAt W files uri caret).notes := by
  obtain ⟨hanswer, hall⟩ := Server.scan_of_passable hscanned hroot hprograms
  rw [Server.symbolAt_of_word hword hsome, hanswer]
  exact ⟨rfl, hall⟩

/-- The programs of a workspace stand among the paths that its nodes give. -/
theorem Server.IsProgram.mem {files : FileTree} {s : Server σ} {root path : String}
    {place paths : List String} (h : s.IsProgram files path) (hs : s.root = some root)
    (hroot : files.locate (Path.tidy root) = .ok (.found place .directory))
    (hpaths : ∀ e ∈ files.nodes,
      (e.1.drop place.length).getLast?.any (·.endsWith Path.sourceSuffix) = true →
        below (Path.tidy root) (e.1.drop place.length) ∈ paths) : path ∈ paths := by
  obtain ⟨root', place', rest, node, hroot', -, -, hlocate, hmem, hending, rfl⟩ := h
  rw [hs] at hroot'
  cases hroot'
  rw [hroot] at hlocate
  cases hlocate
  have hpath := hpaths _ hmem
  rw [List.drop_left] at hpath
  exact hpath hending

theorem passable_of_unopened {files : FileTree} {path : String} {fault : FileFault}
    (habsolute : Path.isAbsolute path = true)
    (hread : files.readText path = .error (.unopened path fault)) : Passable files path := by
  refine ⟨habsolute, fun halt hread' => ?_, fun text document content hread' => ?_,
    fun text document content name hread' => ?_⟩
  all_goals rw [hread] at hread'; cases hread'
  exact ⟨fault, rfl⟩

/-- A program is passable if a list that is closed under loads shows it to be. -/
theorem passable_of_isClosed {files : FileTree} {path text : String}
    (habsolute : Path.isAbsolute path = true) (hread : files.readText path = .ok text)
    (documents : List (String × String))
    (hclosed : isClosed files (Uri.ofPath path) documents = true)
    (hself : (Uri.ofPath path, text) ∈ documents) (hearly : ∀ p ∈ documents, ¬ BreaksEarly p.2)
    (hnames : ∀ p ∈ documents, ∀ name ∈ (survey p.1 p.2).includes, Path.hasNul name = false) :
    Passable files path := by
  refine ⟨habsolute, fun halt hread' => ?_, fun text' document content hread' hreached => ?_,
    fun text' document content name hread' hreached hloads => ?_⟩
  all_goals rw [hread] at hread'; cases hread'
  · exact hearly _ (hreached.mem_of_isClosed hclosed hself)
  · exact hnames _ (hreached.mem_of_isClosed hclosed hself) _ ((mem_includes_iff _ _ _).mpr hloads)

/-- A program, one with a malformed numeral that it loads, a directory named like one, and one that
is locked. -/
def treeOfPrograms : FileTree :=
  ⟨[(["w"], .directory), (["w", "a.meow"], .directory),
    (["w", "b.meow"], .file (Text.Utf8.encode "include \"c\"; set b = 2;")),
    (["w", "c.meow"], .file (Text.Utf8.encode "set x = 1.2.3;")), (["w", "d.meow"], .locked)], ["w"]⟩

def serverOfWord : Server (List (String × String)) :=
  ⟨.empty, [(uriOfCycle, "b")], some "/w", false⟩

/-- Texts to which a change adds at the end. -/
def typed : Workspace (List (String × String)) String := .ofTexts (· ++ ·)

theorem wordAt_typed {files : FileTree} {texts : List (String × String)} {uri text : String}
    (h : texts.lookup uri = some text) (caret : Caret) :
    typed.wordAt files texts uri caret = .ok (caret.word text) := by
  simp [typed, Workspace.ofTexts, Workspace.ofTexts.sourceOf, h, Except.map]

theorem wordAt_serverOfWord (files : FileTree) :
    typed.wordAt files serverOfWord.held uriOfCycle ⟨0, 0⟩ = .ok "b" := by
  have hheld : serverOfWord.held.lookup uriOfCycle = some "b" := by simp [serverOfWord]
  have hword : (⟨0, 0⟩ : Caret).word "b" = "b" := by decide
  rw [wordAt_typed hheld, hword]

theorem isProgram_of_name {files : FileTree} {s : Server σ} {path : String} (name : String)
    (node : FileNode) (hs : s.root = some "/w")
    (hroot : files.locate (Path.tidy "/w") = .ok (.found ["w"] .directory))
    (hmem : (["w", name], node) ∈ files.nodes) (hending : name.endsWith Path.sourceSuffix = true)
    (hpath : path = Server.below (Path.tidy "/w") [name]) : s.IsProgram files path :=
  ⟨"/w", ["w"], [name], node, hs, by decide, by decide, hroot, hmem, hending, hpath⟩

theorem locate_treeOfPrograms :
    treeOfPrograms.locate (Path.tidy "/w") = .ok (.found ["w"] .directory) := by decide +kernel

theorem readText_of_read_error {files : FileTree} {path : String} {fault : FileFault}
    (hnul : Path.hasNul path = false) (hread : files.read path = .error fault) :
    files.readText path = .error (.unopened path fault) := by
  rw [FileTree.readText, hnul, hread]
  rfl

theorem readText_treeOfPrograms :
    treeOfPrograms.readText "/w/a.meow" = .error (.unopened "/w/a.meow" .isDirectory) ∧
      treeOfPrograms.readText "/w/d.meow" = .error (.unopened "/w/d.meow" .denied) :=
  ⟨readText_of_read_error (by decide) (by decide +kernel),
    readText_of_read_error (by decide) (by decide +kernel)⟩

theorem passable_treeOfPrograms {path : String}
    (h : serverOfWord.IsProgram treeOfPrograms path) : Passable treeOfPrograms path := by
  have hb : (treeOfPrograms.readText "/w/b.meow").toOption =
      some "include \"c\"; set b = 2;" := by decide +kernel
  have hc : (treeOfPrograms.readText "/w/c.meow").toOption = some "set x = 1.2.3;" := by
    decide +kernel
  have hmem : path ∈ ["/w/a.meow", "/w/b.meow", "/w/c.meow", "/w/d.meow"] :=
    h.mem rfl locate_treeOfPrograms (by decide +kernel)
  simp only [List.mem_cons, List.not_mem_nil, or_false] at hmem
  rcases hmem with rfl | rfl | rfl | rfl
  · exact passable_of_unopened (by decide +kernel) readText_treeOfPrograms.1
  · exact passable_of_isClosed (by decide +kernel) (eq_ok_of_toOption hb)
      [(Uri.ofPath "/w/b.meow", "include \"c\"; set b = 2;"),
        (Uri.ofPath "/w/c.meow", "set x = 1.2.3;")]
      (by decide +kernel) List.mem_cons_self (by decide +kernel) (by decide +kernel)
  · exact passable_of_isClosed (by decide +kernel) (eq_ok_of_toOption hc)
      [(Uri.ofPath "/w/c.meow", "set x = 1.2.3;")]
      (by decide +kernel) List.mem_cons_self (by decide +kernel) (by decide +kernel)
  · exact passable_of_unopened (by decide +kernel) readText_treeOfPrograms.2

/-- The word is found in the second program: the directory before it and the locked file behind it
are passed over, and the numeral in what it loads stops nothing. -/
theorem programs_are_indexed_by_a_question_beside_a_locked_file :
    (∀ path, serverOfWord.IsProgram treeOfPrograms path → Passable treeOfPrograms path) ∧
    (serverOfWord.symbolAt typed treeOfPrograms uriOfCycle ⟨0, 0⟩).answer.isOk = true ∧
    (serverOfWord.symbolAt typed treeOfPrograms uriOfCycle ⟨0, 0⟩).server.index.symbols
      (Uri.ofPath "/w/b.meow") = [⟨"b", Uri.ofPath "/w/b.meow", 0, 17, none⟩] ∧
    Note.skipped "/w/a.meow" (.unopened "/w/a.meow" .isDirectory) ∈
      (serverOfWord.symbolAt typed treeOfPrograms uriOfCycle ⟨0, 0⟩).notes ∧
    Note.skipped "/w/d.meow" (.unopened "/w/d.meow" .denied) ∈
      (serverOfWord.symbolAt typed treeOfPrograms uriOfCycle ⟨0, 0⟩).notes := by
  have hread : (treeOfPrograms.readText "/w/b.meow").toOption =
      some "include \"c\"; set b = 2;" := by decide +kernel
  have hnamed : ∀ root, serverOfWord.root = some root →
      treeOfPrograms.locate (Path.tidy root) ≠ .error .nameTooLong := by
    rintro _ ⟨⟩ hlong
    rw [locate_treeOfPrograms] at hlong
    cases hlong
  have ha : serverOfWord.IsProgram treeOfPrograms "/w/a.meow" :=
    isProgram_of_name "a.meow" .directory rfl locate_treeOfPrograms (by simp [treeOfPrograms])
      (by decide +kernel) (by decide +kernel)
  have hb : serverOfWord.IsProgram treeOfPrograms "/w/b.meow" :=
    isProgram_of_name "b.meow" _ rfl locate_treeOfPrograms
      (List.mem_cons_of_mem _ (List.mem_cons_of_mem _ List.mem_cons_self)) (by decide +kernel)
      (by decide +kernel)
  have hd : serverOfWord.IsProgram treeOfPrograms "/w/d.meow" :=
    isProgram_of_name "d.meow" .locked rfl locate_treeOfPrograms (by simp [treeOfPrograms])
      (by decide +kernel) (by decide +kernel)
  obtain ⟨hanswer, hall⟩ := programs_are_indexed_by_a_question typed treeOfPrograms serverOfWord
    uriOfCycle "b" ⟨0, 0⟩ rfl (wordAt_serverOfWord _) (by decide) hnamed
    fun _ => passable_treeOfPrograms
  refine ⟨fun _ => passable_treeOfPrograms, by rw [hanswer]; rfl, ?_,
    (hall _ ha).2 _ readText_treeOfPrograms.1,
    (hall _ hd).2 _ readText_treeOfPrograms.2⟩
  rw [Index.symbols_of_lookup ((hall _ hb).1 _ (eq_ok_of_toOption hread))]
  decide +kernel

/-- A program that is no text, before one that is. -/
def treeOfNoText : FileTree :=
  ⟨[(["w"], .directory), (["w", "a.meow"], .file [0xff]),
    (["w", "b.meow"], .file (Text.Utf8.encode "set b = 2;"))], ["w"]⟩

/-- A program that is no text keeps the first question from being answered. -/
theorem programs_are_not_always_indexed :
    ¬ ∀ (σ ε : Type) (W : Workspace σ ε) (files : FileTree) (s : Server σ) (uri word : String)
      (caret : Caret), s.scanned = false → W.wordAt files s.held uri caret = .ok word →
      word.isEmpty = false →
      (s.symbolAt W files uri caret).answer.isOk = true ∧
      ∀ path content, s.IsProgram files path → files.readText path = .ok content →
        (s.symbolAt W files uri caret).server.index.contains (Uri.ofPath path) = true := by
  intro h
  have hroot : treeOfNoText.locate (Path.tidy "/w") = .ok (.found ["w"] .directory) := by
    decide +kernel
  have hprogram : serverOfWord.IsProgram treeOfNoText "/w/a.meow" := isProgram_of_name "a.meow" _
    rfl hroot (List.mem_cons_of_mem _ List.mem_cons_self) (by decide +kernel) (by decide +kernel)
  have hread : treeOfNoText.read "/w/a.meow" = .ok [0xff] := by decide +kernel
  have hdecode : (Text.Utf8.decode [0xff]).isOk = false := by decide
  obtain ⟨fault, hfault⟩ : ∃ fault,
      treeOfNoText.readText "/w/a.meow" = .error (.undecodable fault) := by
    refine FileTree.readText_of_noText (by decide) hread fun s hs => ?_
    rw [hs, Text.Utf8.decode_encode] at hdecode
    cases hdecode
  have hanswer := (h _ _ typed treeOfNoText serverOfWord uriOfCycle "b" ⟨0, 0⟩ rfl
    (wordAt_serverOfWord _) (by decide)).1
  rw [Server.symbolAt_of_word (wordAt_serverOfWord _) (by decide)] at hanswer
  rcases Server.scan_cases treeOfNoText (show serverOfWord.scanned = false from rfl) with
    ⟨_, r, ⟨⟩, hlong, -⟩ | ⟨paths, ⟨answer, d⟩, hpaths, hseen, hscan⟩
  · rw [hroot] at hlong
    cases hlong
  · rw [hscan] at hanswer
    cases answer with
    | error r => cases hanswer
    | ok =>
      obtain ⟨⟨_, hunopened⟩, -⟩ := hseen.skipped rfl _ ((hpaths _).mpr hprogram) _ hfault
      cases hunopened

end MeowLang.Editor
