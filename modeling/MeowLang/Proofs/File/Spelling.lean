import MeowLang.Proofs.IncludeGraph

/-! The spellings of a library's path. In normal form a path is the way from the root along its
components, where an empty one and a dot stay, two dots go up and a name goes down. So a detour put
in behind a slash changes nothing, and a library that includes itself is found out under every such
spelling. -/
namespace MeowLang.Path

/-! ### Ways from the root -/

/-- The directory that a component leads to. -/
def along (directory : List String) (c : String) : List String :=
  if c = "" ∨ c = "." then directory
  else if c = ".." then directory.dropLast
  else directory ++ [c]

theorem along_of_plain {c : String} (h : Plain c) (directory : List String) :
    along directory c = directory ++ [c] := by
  simp [along, h.ne_empty, h.ne_dot, h.ne_dots]

/-- Below the root the normal form goes along the components. -/
theorem collapse_eq_foldl {stack : List String} (h : ".." ∉ stack) (parts : List String) :
    collapse true stack parts = parts.foldl along stack.reverse := by
  induction parts generalizing stack with
  | nil => rfl
  | cons c parts ih =>
    rw [List.foldl_cons, along]
    by_cases hstay : c = "" ∨ c = "."
    · rw [if_pos hstay, ← ih h]
      simp [collapse, hstay]
    rw [if_neg hstay]
    by_cases hup : c = ".."
    · rw [if_pos hup]
      cases stack with
      | nil =>
        have hroot := ih List.not_mem_nil
        simpa [collapse, hup] using hroot
      | cons last before =>
        have hlast : last ≠ ".." := fun heq => h (heq ▸ List.mem_cons_self)
        have hbefore := ih fun hmem => h (List.mem_cons_of_mem last hmem)
        simpa [collapse, hup, hlast] using hbefore
    · rw [if_neg hup]
      have hdown : collapse true (c :: stack) parts = parts.foldl along (c :: stack).reverse :=
        ih (by simp [Ne.symm hup, h])
      simpa [collapse, hstay, hup] using hdown

/-! ### Detours -/

/-- What may be put in behind a slash: a dot, a slash, or a name and the way back. -/
inductive Detour : String → Prop
  | dot : Detour "./"
  | slash : Detour "/"
  | around {x : String} (plain : Plain x) : Detour (x ++ "/../")

/-- The second path is the first with a detour behind a slash that follows a component. -/
def Respells (path path' : String) : Prop :=
  ∃ front back detour, path = front ++ "/" ++ back ∧ path' = front ++ "/" ++ detour ++ back ∧
    Detour detour ∧ ∃ c ∈ front.toList, c ≠ '/'

theorem split_of_slashless {x : String} (h : '/' ∉ x.toList) : Text.split x "/" = [x] := by
  have hsplit : Text.split ("/".intercalate [x]) "/" = [x] := by
    rw [slash_eq]
    exact Text.split_intercalate (List.cons_ne_nil x []) (by simpa using h)
  rwa [String.intercalate_singleton] at hsplit

theorem split_append_slash (p q : String) :
    Text.split (p ++ "/" ++ q) "/" = Text.split p "/" ++ Text.split q "/" := by
  rw [slash_eq]
  exact Text.split_append p q

/-- A detour comes back to where it began. -/
theorem Detour.foldl_along {detour : String} (h : Detour detour) (directory : List String)
    (back : String) : (Text.split (detour ++ back) "/").foldl along directory =
      (Text.split back "/").foldl along directory := by
  cases h with
  | dot =>
    have hdot : ("./" : String) = "." ++ "/" := rfl
    rw [hdot, split_append_slash, split_of_slashless (by decide)]
    rfl
  | slash =>
    rw [split_slash]
    rfl
  | @around x plain =>
    have hparts : ("/../" : String) = "/" ++ (".." ++ "/") := rfl
    have hreturn : along (along directory x) ".." = directory := by
      rw [along_of_plain plain]
      simp [along]
    rw [hparts, ← String.append_assoc, String.append_assoc, split_append_slash, split_append_slash,
      split_of_slashless plain.slashless, split_of_slashless (by decide)]
    exact congrArg (fun d => (Text.split back "/").foldl along d) hreturn

/-! ### Behind a component -/

/-- Nothing behind a component changes how a path starts. -/
theorem root_append_of_component {front : String} (h : ∃ c ∈ front.toList, c ≠ '/')
    (p q : String) : root (front ++ p) = root (front ++ q) := by
  unfold root
  rw [String.toList_append, String.toList_append]
  obtain ⟨d, hd, hslash⟩ := h
  generalize front.toList = cs at hd
  rcases cs with _ | ⟨a, _ | ⟨b, _ | ⟨c, rest⟩⟩⟩
  · cases hd
  · rw [List.mem_singleton.mp hd] at hslash
    simp [hslash]
  · by_cases ha : a = '/'
    · have hb : b ≠ '/' := by
        rcases List.mem_cons.mp hd with rfl | hd
        · exact absurd ha hslash
        · rwa [List.mem_singleton.mp hd] at hslash
      simp [ha, hb]
    · simp [ha]
  · by_cases ha : a = '/' <;> by_cases hb : b = '/' <;> by_cases hc : c = '/' <;> simp [ha, hb, hc]

theorem isAbsolute_append_of_component {front : String} (h : ∃ c ∈ front.toList, c ≠ '/')
    (p : String) : isAbsolute (front ++ p) = isAbsolute front := by
  obtain ⟨d, hd, -⟩ := h
  rw [Bool.eq_iff_iff, isAbsolute_iff, isAbsolute_iff, String.toList_append]
  cases hfront : front.toList with
  | nil =>
    rw [hfront] at hd
    cases hd
  | cons c cs => simp

theorem Respells.append_left {path path' : String} (h : Respells path path') (before : String) :
    Respells (before ++ path) (before ++ path') := by
  obtain ⟨front, back, detour, rfl, rfl, hdetour, c, hc, hslash⟩ := h
  refine ⟨before ++ front, back, detour, ?_, ?_, hdetour, c, ?_, hslash⟩
  · simp only [String.append_assoc]
  · simp only [String.append_assoc]
  · rw [String.toList_append]
    exact List.mem_append_right _ hc

/-- Seen from a directory, another spelling is another spelling of the same path. -/
theorem Respells.join {path path' : String} (h : Respells path path') (directory : String) :
    Respells (join directory path) (join directory path') := by
  have habsolute : isAbsolute path' = isAbsolute path := by
    obtain ⟨front, back, detour, rfl, rfl, -, hcomponent⟩ := h
    simp only [String.append_assoc, isAbsolute_append_of_component hcomponent]
  unfold Path.join
  rw [habsolute]
  split
  · exact h
  split
  · exact h.append_left directory
  · exact h.append_left (directory ++ "/")

/-- The normal form of an absolute path is the way along its components. -/
theorem normalize_eq_foldl {p : String} (h : isAbsolute p = true) :
    normalize p = under (root p) ((Text.split p "/").foldl along []) := by
  rw [normalize_eq h, collapse_eq_foldl List.not_mem_nil]
  rfl

theorem plain_of_mem_foldl (p : String) : ∀ c ∈ (Text.split p "/").foldl along [], Plain c := by
  have hcollapse := collapse_eq_foldl (List.not_mem_nil (a := "..")) (Text.split p "/")
  rw [List.reverse_nil] at hcollapse
  rw [← hcollapse]
  refine plain_of_mem_collapse (by simp) fun c hc => ?_
  rw [slash_eq] at hc
  exact Text.not_mem_of_mem_split hc

/-- All spellings of an absolute path have one normal form. -/
theorem Respells.normalize_eq {path path' : String} (h : Respells path path')
    (habsolute : isAbsolute path = true) : normalize path' = normalize path := by
  obtain ⟨front, back, detour, rfl, rfl, hdetour, hcomponent⟩ := h
  have hroot : root (front ++ "/" ++ detour ++ back) = root (front ++ "/" ++ back) := by
    simp only [String.append_assoc]
    exact root_append_of_component hcomponent _ _
  have habsolute' : isAbsolute (front ++ "/" ++ detour ++ back) = true := by
    simpa only [String.append_assoc, isAbsolute_append_of_component hcomponent] using habsolute
  have hparts : Text.split (front ++ "/" ++ detour ++ back) "/" =
      Text.split front "/" ++ Text.split (detour ++ back) "/" := by
    rw [String.append_assoc, split_append_slash]
  rw [normalize_eq_foldl habsolute', normalize_eq_foldl habsolute, hroot, hparts,
    split_append_slash, List.foldl_append, List.foldl_append, hdetour.foldl_along]

/-! ### Libraries -/

/-- Two slashes stand at the start, and not a third one. -/
def Doubled (p : String) : Prop := ∃ rest, p.toList = '/' :: '/' :: rest ∧ rest.head? ≠ some '/'

theorem root_eq_two_iff {p : String} : root p = "//" ↔ Doubled p := by
  have hone : ("/" : String) ≠ "//" := by decide
  have hnone : ("" : String) ≠ "//" := by decide
  unfold root
  split
  · rename_i rest hp
    refine iff_of_false hone ?_
    rintro ⟨rest', hp', hhead⟩
    obtain rfl : '/' :: rest = rest' := by simpa [hp] using hp'
    exact hhead rfl
  · rename_i rest hthree hp
    refine iff_of_true rfl ⟨rest, hp, fun hhead => ?_⟩
    obtain ⟨more, hmore⟩ := List.head?_eq_some_iff.mp hhead
    exact hthree more hmore
  · rename_i rest _ htwo hp
    refine iff_of_false hone ?_
    rintro ⟨rest', hp', -⟩
    exact htwo rest' (by simpa [hp] using hp')
  · rename_i hslash
    refine iff_of_false hnone ?_
    rintro ⟨rest', hp', -⟩
    exact hslash _ hp'

/-- The path that a library's name spells in a directory, seen from the working directory. -/
def spelled (workingDirectory base name : String) : String :=
  join workingDirectory (join base (name ++ sourceSuffix))

theorem normalize_join_eq_ofLibrary {workingDirectory base name path : String}
    (h : isAbsolute workingDirectory = true)
    (hpath : Relation.EqvGen Respells (join base (name ++ sourceSuffix)) path) :
    normalize (join workingDirectory path) = ofLibrary workingDirectory base name := by
  have hall : ∀ p q, Relation.EqvGen Respells p q →
      normalize (join workingDirectory q) = normalize (join workingDirectory p) := by
    intro p q hpq
    induction hpq with
    | rel p q hpq => exact (hpq.join workingDirectory).normalize_eq (isAbsolute_join h)
    | refl p => rfl
    | symm p q _ ih => exact ih.symm
    | trans p q r _ _ ih ih' => exact ih'.trans ih
  exact hall _ _ hpath

/-- A library that is being loaded is not loaded again, whatever its name is spelled like. -/
theorem load_of_mem_loading {site : Site} {m : Machine} {name path : String}
    (hname : Library.isBuiltIn name = false)
    (hpath : ofLibrary m.world.workingDirectory site.baseDirectory name = path)
    (hloading : path ∈ m.loading) (n : Nat) (line : Int) :
    exec site (n + 2) (.load name line) m =
      (.signal (.failed ⟨.recursiveInclude path, some line, some site.file⟩), m) := by
  subst hpath
  simp only [exec, load_succ, plan_used hname hloading]
  rfl

/-- The path of a library is absolute and goes through plain names, those that are left on the way
along the path as it is spelled; exactly two slashes at the start of that one are kept. It is in
normal form. Detours behind components do not change it, so a library that is being loaded is
recognized under every spelling that has or lacks some. -/
theorem library_paths_have_one_spelling {workingDirectory : String}
    (h : isAbsolute workingDirectory = true) (base name : String) :
    (∃ start cs, IsStart start ∧ (∀ c ∈ cs, Plain c) ∧
      ofLibrary workingDirectory base name = under start cs ∧
      (start = "//" ↔ Doubled (spelled workingDirectory base name)) ∧
      cs = (Text.split (spelled workingDirectory base name) "/").foldl along []) ∧
    isAbsolute (ofLibrary workingDirectory base name) = true ∧
    normalize (ofLibrary workingDirectory base name) = ofLibrary workingDirectory base name ∧
    ∀ path, Relation.EqvGen Respells (join base (name ++ sourceSuffix)) path →
      normalize (join workingDirectory path) = ofLibrary workingDirectory base name ∧
      ∀ (site : Site) (n : Nat) (line : Int) (m : Machine) (name' : String),
        m.world.workingDirectory = workingDirectory →
        join site.baseDirectory (name' ++ sourceSuffix) = path →
        Library.isBuiltIn name' = false → ofLibrary workingDirectory base name ∈ m.loading →
        exec site (n + 2) (.load name' line) m =
          (.signal (.failed ⟨.recursiveInclude (ofLibrary workingDirectory base name), some line,
            some site.file⟩), m) := by
  have habsolute : isAbsolute (spelled workingDirectory base name) = true := isAbsolute_join h
  have hstart := root_of_isAbsolute habsolute
  have hform : ofLibrary workingDirectory base name = under _ _ := normalize_eq_foldl habsolute
  have hplain := plain_of_mem_foldl (spelled workingDirectory base name)
  refine ⟨⟨_, _, hstart, hplain, hform, root_eq_two_iff, rfl⟩, ?_, ?_, fun path hpath => ?_⟩
  · rw [hform]
    exact isAbsolute_under hstart
  · rw [hform]
    exact normalize_under hstart hplain
  · have hnormal := normalize_join_eq_ofLibrary h hpath
    refine ⟨hnormal, fun site n line m name' hwd hjoin hname hloading => ?_⟩
    exact load_of_mem_loading hname (by rw [ofLibrary, hwd, hjoin, hnormal]) hloading n line

/-- The library `lib` of a relative directory includes itself under a name with two detours. -/
theorem library_paths_have_one_spelling_with_detours :
    let m : Machine := ⟨.empty, 0, 0, ["/w/sub/lib.meow"], .start ⟨[], ["w"]⟩ []⟩
    isAbsolute "/w" = true ∧
      Relation.EqvGen Respells (join "sub" ("lib" ++ sourceSuffix)) "sub/x/.././lib.meow" ∧
      normalize (join "/w" "sub/x/.././lib.meow") = "/w/sub/lib.meow" ∧
      exec ⟨"lib", "sub"⟩ 2 (.load "x/.././lib" 7) m =
        (.signal (.failed ⟨.recursiveInclude "/w/sub/lib.meow", some 7, some "lib"⟩), m) := by
  intro m
  have habsolute : isAbsolute "/w" = true := by decide +kernel
  have hlibrary : ofLibrary "/w" "sub" "lib" = "/w/sub/lib.meow" := by decide +kernel
  have hx : Plain "x" := ⟨by decide, by decide, by decide, by decide⟩
  have haround : Respells (join "sub" ("lib" ++ sourceSuffix)) "sub/x/../lib.meow" :=
    ⟨"sub", "lib.meow", "x/../", by decide +kernel, rfl, .around hx, 's', by decide, by decide⟩
  have hdot : Respells "sub/x/../lib.meow" "sub/x/.././lib.meow" :=
    ⟨"sub/x/..", "lib.meow", "./", rfl, rfl, .dot, 's', by decide, by decide⟩
  have hspelled := Relation.EqvGen.trans _ _ _ (.rel _ _ haround) (.rel _ _ hdot)
  obtain ⟨-, -, -, hsame⟩ := library_paths_have_one_spelling habsolute "sub" "lib"
  obtain ⟨hnormal, hload⟩ := hsame _ hspelled
  have hrefused := hload ⟨"lib", "sub"⟩ 0 7 m "x/.././lib" rfl (by decide +kernel)
    (by decide +kernel) (by rw [hlibrary]; exact List.mem_singleton_self _)
  rw [hlibrary] at hnormal hrefused
  exact ⟨habsolute, hspelled, hnormal, hrefused⟩

end MeowLang.Path
