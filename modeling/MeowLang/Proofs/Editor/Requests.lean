import MeowLang.Proofs.Editor.Workspace

/-! Requests of an editor, one after the other. Three of them reach the entry of a document in the
index: its text being sent or changed, a load that leads to it, and the search through the
workspace. A load leaves an entry that is there. The search does not: it puts the file in the place
of what was sent, but it comes once only, with the first question about a word. -/
namespace MeowLang.Editor

variable {σ ε : Type}

inductive Request (ε : Type) where
  | opened (uri text : String)
  | changed (uri : String) (change : ε)
  | hover (uri : String) (caret : Caret)
  | definition (uri : String) (caret : Caret)
  | symbols (uri : String)

/-- The document whose text a request is about to set. -/
def Request.document? : Request ε → Option String
  | .opened uri _ | .changed uri _ => some uri
  | .hover _ _ | .definition _ _ | .symbols _ => none

/-- The text that the editor has for a document when it has sent a request, if it had `text?`
before. -/
def Request.textAfter (W : Workspace σ ε) (uri : String) (text? : Option String) :
    Request ε → Option String
  | .opened address text => if address = uri then some text else text?
  | .changed address change => if address = uri then text?.map (W.revise · change) else text?
  | .hover _ _ | .definition _ _ | .symbols _ => text?

/-- The text that the editor has for a document after requests, if it has opened it. -/
def Workspace.lastText (W : Workspace σ ε) (uri : String) (requests : List (Request ε)) :
    Option String :=
  requests.foldl (Request.textAfter W uri) none

namespace Server

/-- The service after a request, however it was answered. -/
def serve (W : Workspace σ ε) (files : FileTree) (s : Server σ) : Request ε → Server σ
  | .opened uri text => (s.openDocument W files uri text).server
  | .changed uri change => (s.changeDocument W files uri change).server
  | .hover uri caret => (s.hover W files uri caret).server
  | .definition uri caret => (s.definition W files uri caret).server
  | .symbols _ => s

def serveAll (W : Workspace σ ε) (files : FileTree) (s : Server σ) (requests : List (Request ε)) :
    Server σ :=
  requests.foldl (serve W files) s

/-- A document is open and has a text. -/
structure Shows (W : Workspace σ ε) (files : FileTree) (s : Server σ) (uri text : String) :
    Prop where
  isOpen : W.isOpen s.held uri = true
  source : W.source files s.held uri = .ok text

variable {W : Workspace σ ε} {files : FileTree} {s : Server σ} {uri text : String}
  {text? : Option String} {r : Request ε} {requests : List (Request ε)}

theorem serveAll_cons :
    serveAll W files s (r :: requests) = serveAll W files (s.serve W files r) requests := rfl

theorem serveAll_append {later : List (Request ε)} :
    serveAll W files s (requests ++ later) =
      serveAll W files (serveAll W files s requests) later :=
  List.foldl_append

/-! ### One request -/

theorem openDocument_eq (h : W.objection? uri = none) (text : String) :
    s.openDocument W files uri text =
      { s with held := W.put s.held uri text }.update files uri text := by
  simp only [openDocument, h]

theorem changeDocument_eq {change : ε} {held : σ} (hedit : W.edit s.held uri change = .ok held)
    (hsource : W.source files held uri = .ok text) :
    s.changeDocument W files uri change = { s with held := held }.update files uri text := by
  simp only [changeDocument, hedit, hsource]

theorem held_changeDocument (files : FileTree) {change : ε} {held : σ}
    (hedit : W.edit s.held uri change = .ok held) :
    (s.changeDocument W files uri change).server.held = held := by
  simp only [changeDocument, hedit]
  split <;> rfl

theorem server_scan (files : FileTree) (s : Server σ) :
    ∃ index, (s.scan files).server = { s with scanned := true, index := index } := by
  cases hscanned : s.scanned with
  | true =>
    rw [scan_of_scanned hscanned]
    exact ⟨s.index, by rw [← hscanned]⟩
  | false =>
    rcases scan_cases files hscanned with ⟨_, _, -, -, hscan⟩ | ⟨_, z, -, -, hscan⟩
    · rw [hscan]
      exact ⟨s.index, rfl⟩
    · rw [hscan]
      exact ⟨z.2.index, rfl⟩

/-- A question changes nothing, or has the workspace looked through for the first time. -/
theorem server_symbolAt_cases (W : Workspace σ ε) (files : FileTree) (s : Server σ) (uri : String)
    (caret : Caret) : (s.symbolAt W files uri caret).server = s ∨
      s.scanned = false ∧ (s.symbolAt W files uri caret).server = (s.scan files).server := by
  cases hword : W.wordAt files s.held uri caret with
  | error r => exact .inl (by simp only [symbolAt, hword, refuse])
  | ok word =>
    cases hsome : word.isEmpty with
    | true =>
      left
      simp only [symbolAt, hword, hsome]
      rfl
    | false =>
      rw [symbolAt_of_word hword hsome]
      cases hscanned : s.scanned with
      | true =>
        rw [scan_of_scanned hscanned]
        exact .inl rfl
      | false => exact .inr ⟨rfl, rfl⟩

/-- A request leaves the index, takes in a text for the document it is about, or has the workspace
looked through. -/
theorem serve_cases (W : Workspace σ ε) (files : FileTree) (s : Server σ) (r : Request ε) :
    (∃ held, s.serve W files r = { s with held := held }) ∨
    (∃ held uri text, r.document? = some uri ∧
      s.serve W files r = ({ s with held := held }.update files uri text).server) ∨
    (r.document? = none ∧ s.scanned = false ∧ s.serve W files r = (s.scan files).server) := by
  cases r with
  | opened uri text =>
    cases hobjection : W.objection? uri with
    | some r => exact .inl ⟨s.held, by simp only [serve, openDocument, hobjection, refuse]⟩
    | none => exact .inr (.inl ⟨_, uri, text, rfl, by rw [serve, openDocument_eq hobjection]⟩)
  | changed uri change =>
    cases hedit : W.edit s.held uri change with
    | error r => exact .inl ⟨s.held, by simp only [serve, changeDocument, hedit, refuse]⟩
    | ok held =>
      cases hsource : W.source files held uri with
      | error r => exact .inl ⟨held, by simp only [serve, changeDocument, hedit, hsource, refuse]⟩
      | ok text =>
        exact .inr (.inl ⟨held, uri, text, rfl, by rw [serve, changeDocument_eq hedit hsource]⟩)
  | hover uri caret =>
    refine (server_symbolAt_cases W files s uri caret).imp (fun h => ⟨s.held, h⟩) fun h => ?_
    exact .inr ⟨rfl, h⟩
  | definition uri caret =>
    refine (server_symbolAt_cases W files s uri caret).imp (fun h => ⟨s.held, h⟩) fun h => ?_
    exact .inr ⟨rfl, h⟩
  | symbols uri => exact .inl ⟨s.held, rfl⟩

theorem root_serve : (s.serve W files r).root = s.root := by
  rcases serve_cases W files s r with ⟨_, hs⟩ | ⟨_, _, _, -, hs⟩ | ⟨-, -, hs⟩
  · rw [hs]
  · rw [hs]
    rfl
  · obtain ⟨index, hindex⟩ := server_scan files s
    rw [hs, hindex]

theorem scanned_serve (h : s.scanned = true) : (s.serve W files r).scanned = true := by
  rcases serve_cases W files s r with ⟨_, hs⟩ | ⟨_, _, _, -, hs⟩ | ⟨-, hscanned, -⟩
  · rwa [hs]
  · rw [hs]
    exact h
  · rw [h] at hscanned
    cases hscanned

theorem held_symbolAt (W : Workspace σ ε) (files : FileTree) (s : Server σ) (uri : String)
    (caret : Caret) : (s.symbolAt W files uri caret).server.held = s.held := by
  rcases server_symbolAt_cases W files s uri caret with hs | ⟨-, hs⟩
  · rw [hs]
  · obtain ⟨index, hindex⟩ := server_scan files s
    rw [hs, hindex]

theorem Shows.congr {s' : Server σ} (h : s.Shows W files uri text) (hheld : s'.held = s.held) :
    s'.Shows W files uri text :=
  ⟨by rw [hheld, h.isOpen], by rw [hheld, h.source]⟩

/-- A document that is open is changed as the editor changes it. -/
theorem Shows.edit (hW : W.Lawful) (h : s.Shows W files uri text) (change : ε) :
    ∃ held, W.edit s.held uri change = .ok held ∧ W.isOpen held uri = true ∧
      W.source files held uri = .ok (W.revise text change) := by
  obtain ⟨held, hedit⟩ := hW.edit_of_isOpen _ _ change h.isOpen
  refine ⟨held, hedit, ?_, hW.source_edit _ _ _ _ _ _ hedit h.source⟩
  rw [hW.isOpen_edit _ _ _ _ _ hedit, h.isOpen]

/-- The service goes on to hold the text that the editor has. -/
theorem shows_serve (hW : W.Lawful) (haddress : W.objection? uri = none)
    (h : ∀ text, text? = some text → s.Shows W files uri text)
    (htext : r.textAfter W uri text? = some text) :
    (s.serve W files r).Shows W files uri text := by
  cases r with
  | opened address content =>
    by_cases hself : address = uri
    · subst hself
      obtain rfl : content = text := by simpa [Request.textAfter] using htext
      rw [serve, openDocument_eq haddress]
      exact ⟨by simp [update, adopt, hW.isOpen_put], hW.source_put ..⟩
    · have hshows := h text (by simpa [Request.textAfter, hself] using htext)
      cases hobjection : W.objection? address with
      | some r => exact hshows.congr (by simp only [serve, openDocument, hobjection, refuse])
      | none =>
        rw [serve, openDocument_eq hobjection]
        refine ⟨by simp [update, adopt, hW.isOpen_put, hshows.isOpen], ?_⟩
        exact (hW.source_put_of_ne _ _ _ _ _ (Ne.symm hself) hshows.isOpen).trans hshows.source
  | changed address change =>
    by_cases hself : address = uri
    · subst hself
      obtain ⟨before, rfl, rfl⟩ : ∃ before, text? = some before ∧ W.revise before change = text := by
        simpa [Request.textAfter] using htext
      obtain ⟨held, hedit, hopen, hsource⟩ := (h before rfl).edit hW change
      have hheld := held_changeDocument files hedit
      exact ⟨by rw [serve, hheld, hopen], by rw [serve, hheld, hsource]⟩
    · have hshows := h text (by simpa [Request.textAfter, hself] using htext)
      cases hedit : W.edit s.held address change with
      | error r => exact hshows.congr (by simp only [serve, changeDocument, hedit, refuse])
      | ok held =>
        have hheld := held_changeDocument files hedit
        refine ⟨?_, ?_⟩
        · rw [serve, hheld, hW.isOpen_edit _ _ _ _ _ hedit, hshows.isOpen]
        · rw [serve, hheld, hW.source_edit_of_ne _ _ _ _ _ _ hedit (Ne.symm hself) hshows.isOpen,
            hshows.source]
  | hover address caret => exact (h text htext).congr (held_symbolAt W files s address caret)
  | definition address caret => exact (h text htext).congr (held_symbolAt W files s address caret)
  | symbols address => exact h text htext

/-- A request about a document has the text that the editor then has taken in. -/
theorem lookup_serve_self (hW : W.Lawful) (haddress : W.objection? uri = none)
    (h : ∀ text, text? = some text → s.Shows W files uri text) (hr : r.document? = some uri)
    (htext : r.textAfter W uri text? = some text) :
    (s.serve W files r).index.documents.lookup uri =
      some ((survey uri text).symbols (s.index.symbols uri)) := by
  cases r with
  | opened address content =>
    cases hr
    obtain rfl : content = text := by simpa [Request.textAfter] using htext
    rw [serve, openDocument_eq haddress]
    exact (taken_update files s.index uri content).self
  | changed address change =>
    cases hr
    obtain ⟨before, rfl, rfl⟩ : ∃ before, text? = some before ∧ W.revise before change = text := by
      simpa [Request.textAfter] using htext
    obtain ⟨held, hedit, -, hsource⟩ := (h before rfl).edit hW change
    rw [serve, changeDocument_eq hedit hsource]
    exact (taken_update files s.index uri _).self
  | hover | definition | symbols => cases hr

theorem isProgram_congr {s' : Server σ} (h : s'.root = s.root) (path : String) :
    s'.IsProgram files path ↔ s.IsProgram files path := by
  rw [IsProgram, IsProgram, h]

/-- What becomes of the entry of a document that a request is not about: it stays, unless the
workspace is looked through and has a program with its address. -/
theorem lookup_serve {known : List Symbol} (hr : r.document? ≠ some uri)
    (hl : s.index.documents.lookup uri = some known) :
    (s.serve W files r).index.documents.lookup uri = some known ∨
      s.scanned ≠ (s.serve W files r).scanned ∧ ∃ path content, s.IsProgram files path ∧
        Uri.ofPath path = uri ∧ files.readText path = .ok content ∧
        (s.serve W files r).index.documents.lookup uri =
          some ((survey uri content).symbols known) := by
  rcases serve_cases W files s r with ⟨_, hs⟩ | ⟨_, address, text, haddress, hs⟩ | ⟨-, hscanned, hs⟩
  · rw [hs]
    exact .inl hl
  · rw [hs]
    refine .inl ((taken_update files s.index address text).kept _ _ ?_ hl)
    rintro rfl
    exact hr haddress
  · obtain ⟨index, hindex⟩ := server_scan files s
    rw [hs]
    rcases scan_cases files hscanned with ⟨_, _, -, -, hscan⟩ | ⟨paths, z, hpaths, hseen, hscan⟩
    · rw [hscan]
      exact .inl hl
    · refine (hseen.kept _ _ hl).imp (fun hl => by rw [hscan]; exact hl) ?_
      rintro ⟨path, hpath, content, haddress, hread, hl⟩
      refine ⟨?_, path, content, (hpaths path).mp hpath, haddress, hread, by rw [hscan]; exact hl⟩
      rw [hindex, hscanned]
      exact Bool.false_ne_true

/-! ### Many requests -/

theorem serveAll_induction {P : Server σ → Prop} (hstep : ∀ s r, P s → P (s.serve W files r))
    (requests : List (Request ε)) (h : P s) : P (serveAll W files s requests) := by
  induction requests generalizing s with
  | nil => exact h
  | cons r requests ih => exact ih (hstep s r h)

theorem root_serveAll : (serveAll W files s requests).root = s.root :=
  serveAll_induction (P := fun s' => s'.root = s.root) (fun _ _ h => root_serve.trans h) requests rfl

theorem scanned_serveAll (h : s.scanned = true) : (serveAll W files s requests).scanned = true :=
  serveAll_induction (P := fun s' => s'.scanned = true) (fun _ _ => scanned_serve) requests h

/-- After any requests the service holds the text that the editor has. -/
theorem shows_serveAll (hW : W.Lawful) (haddress : W.objection? uri = none)
    (requests : List (Request ε)) (h : ∀ text, text? = some text → s.Shows W files uri text)
    (htext : requests.foldl (Request.textAfter W uri) text? = some text) :
    (serveAll W files s requests).Shows W files uri text := by
  induction requests generalizing s text? with
  | nil => exact h text htext
  | cons r requests ih => exact ih (fun _ => shows_serve hW haddress h) htext

/-- The entry of a document that no request is about stays as a text shows it, if the workspace is
not looked through or has no other text for the document. -/
theorem lookup_serveAll {contents : Contents} (hsurvey : survey uri text = .read contents)
    (hrequests : ∀ r ∈ requests, r.document? ≠ some uri)
    (hl : s.index.documents.lookup uri = some contents.symbols)
    (hscan : s.scanned = (serveAll W files s requests).scanned ∨
      ∀ path content, s.IsProgram files path → Uri.ofPath path = uri →
        files.readText path = .ok content → content = text) :
    (serveAll W files s requests).index.documents.lookup uri = some contents.symbols := by
  induction requests generalizing s with
  | nil => exact hl
  | cons r requests ih =>
    rw [List.forall_mem_cons] at hrequests
    rw [serveAll_cons] at hscan ⊢
    -- once the workspace has been looked through it stays so, in between too
    have hbetween (h : s.scanned = (serveAll W files (s.serve W files r) requests).scanned) :
        s.scanned = (s.serve W files r).scanned := by
      cases hfirst : (s.serve W files r).scanned with
      | true => rw [h, scanned_serveAll hfirst]
      | false =>
        rw [Bool.eq_false_iff] at hfirst ⊢
        exact fun hs => hfirst (scanned_serve hs)
    refine ih hrequests.2 ?_ (hscan.imp (fun h => (hbetween h).symm.trans h)
      fun h path content hp => h path content ((isProgram_congr root_serve path).mp hp))
    rcases lookup_serve hrequests.1 hl with
      hl | ⟨hnow, path, content, hprogram, haddress, hread, hl⟩
    · exact hl
    · rcases hscan with h | h
      · exact absurd (hbetween h) hnow
      · rw [hl, h path content hprogram haddress hread, hsurvey]
        rfl

end Server

/-- A document that is open is shown as it was last sent, at every later point, if in between the
workspace was not looked through or no program of it has the address of the document and another
text. -/
theorem documents_are_shown_as_sent (W : Workspace σ ε) (hW : W.Lawful) (files : FileTree)
    (s : Server σ) (uri text : String) (before after : List (Request ε)) (sent : Request ε)
    (haddress : W.objection? uri = none) (hsent : sent.document? = some uri)
    (hafter : ∀ r ∈ after, r.document? ≠ some uri)
    (htext : W.lastText uri (before ++ [sent]) = some text)
    (htokens : ∃ tokens, tokenize text = .ok tokens)
    (hscan : (s.serveAll W files (before ++ [sent])).scanned =
        (s.serveAll W files (before ++ sent :: after)).scanned ∨
      ∀ path content, s.IsProgram files path → Uri.ofPath path = uri →
        files.readText path = .ok content → content = text) :
    ∃ contents, survey uri text = .read contents ∧
      (s.serveAll W files (before ++ sent :: after)).index.symbols uri = contents.symbols := by
  obtain ⟨contents, hsurvey, -⟩ := exists_survey htokens uri
  refine ⟨contents, hsurvey, Index.symbols_of_lookup ?_⟩
  rw [Workspace.lastText, List.foldl_append] at htext
  have hshows : ∀ text, W.lastText uri before = some text →
      (s.serveAll W files before).Shows W files uri text :=
    fun _ => Server.shows_serveAll hW haddress before nofun
  have hself := Server.lookup_serve_self hW haddress hshows hsent htext
  rw [Server.serveAll_append, Server.serveAll_append, Server.serveAll_cons,
    Server.serveAll_cons] at hscan
  rw [Server.serveAll_append, Server.serveAll_cons]
  refine Server.lookup_serveAll hsurvey hafter ?_ (hscan.imp_right fun h path content hp =>
    h path content ((Server.isProgram_congr ?_ path).mp hp))
  · rw [hself, hsurvey]
    rfl
  · exact Server.root_serve.trans Server.root_serveAll

/-! ### Texts by their addresses -/

namespace Workspace

variable {revise : String → ε → String} {files : FileTree} {texts texts' : List (String × String)}
  {uri document : String} {change : ε}

/-- A document can be opened at the address of every absolute path. -/
theorem objection?_ofTexts {path : String} {rest : List Char} (h : path.toList = '/' :: rest) :
    (ofTexts revise).objection? (Uri.ofPath path) = none := by
  simp [ofTexts, Uri.location, Uri.split_ofPath h, Except.map]

theorem source_ofTexts {text : String} (h : texts.lookup uri = some text) :
    (ofTexts revise).source files texts uri = .ok text := by
  simp [ofTexts, ofTexts.sourceOf, h]

theorem source_ofTexts_congr (h : texts'.lookup uri = texts.lookup uri) :
    (ofTexts revise).source files texts' uri = (ofTexts revise).source files texts uri := by
  simp [ofTexts, ofTexts.sourceOf, h]

theorem edit_ofTexts_eq_ok_iff : (ofTexts revise).edit texts uri change = .ok texts' ↔
    ∃ text, texts.lookup uri = some text ∧
      texts' = Assoc.insert uri (revise text change) texts := by
  cases hl : texts.lookup uri with
  | none => simp [ofTexts, hl]
  | some text => simp [ofTexts, hl, eq_comm]

theorem ofTexts_lawful (revise : String → ε → String) : (ofTexts revise).Lawful where
  isOpen_put held uri text document := by
    rw [Bool.eq_iff_iff, Bool.or_eq_true, beq_iff_eq]
    exact Assoc.contains_insert
  source_put files held uri text := source_ofTexts (Assoc.lookup_insert_self ..)
  source_put_of_ne files held uri text document hne _ :=
    source_ofTexts_congr (Assoc.lookup_insert_of_ne hne ..)
  edit_of_isOpen held uri change hopen := by
    obtain ⟨text, htext⟩ := Option.isSome_iff_exists.mp hopen
    exact ⟨_, edit_ofTexts_eq_ok_iff.mpr ⟨text, htext, rfl⟩⟩
  isOpen_edit held uri change held' document hedit := by
    obtain ⟨text, htext, rfl⟩ := edit_ofTexts_eq_ok_iff.mp hedit
    have hopen : Assoc.contains uri held = true := by simp [Assoc.contains, htext]
    rw [Bool.eq_iff_iff]
    refine Assoc.contains_insert.trans ⟨?_, .inr⟩
    rintro (rfl | hdocument)
    · exact hopen
    · exact hdocument
  source_edit files held uri change held' text hedit hsource := by
    obtain ⟨before, hbefore, rfl⟩ := edit_ofTexts_eq_ok_iff.mp hedit
    rw [source_ofTexts hbefore] at hsource
    cases hsource
    exact source_ofTexts (Assoc.lookup_insert_self ..)
  source_edit_of_ne files held uri change held' document hedit hne _ := by
    obtain ⟨text, htext, rfl⟩ := edit_ofTexts_eq_ok_iff.mp hedit
    exact source_ofTexts_congr (Assoc.lookup_insert_of_ne hne ..)

end Workspace

def treeOfDocument : FileTree :=
  ⟨[(["w"], .directory), (["w", "main.meow"], .file (Text.Utf8.encode "set a = 1;"))], ["w"]⟩

def serverOfDocument : Server (List (String × String)) := .start [] (some "/w")

/-- A question about a word has the workspace looked through. -/
theorem serve_hover_typed {files : FileTree} {s : Server (List (String × String))}
    {uri text : String} {caret : Caret} (hheld : s.held.lookup uri = some text)
    (hword : (caret.word text).isEmpty = false) :
    s.serve typed files (.hover uri caret) = (s.scan files).server := by
  rw [Server.serve, Server.hover, Server.symbolAt_of_word (wordAt_typed hheld caret) hword]

theorem serve_opened_typed (files : FileTree) (s : Server (List (String × String))) {uri : String}
    (text : String) (h : typed.objection? uri = none) :
    (s.serve typed files (.opened uri text)).held.lookup uri = some text ∧
      (s.serve typed files (.opened uri text)).scanned = s.scanned := by
  rw [Server.serve, Server.openDocument_eq h]
  exact ⟨Assoc.lookup_insert_self uri text s.held, rfl⟩

theorem objection?_uriOfCycle : typed.objection? uriOfCycle = none :=
  Workspace.objection?_ofTexts rfl

theorem readText_treeOfDocument :
    treeOfDocument.locate (Path.tidy "/w") = .ok (.found ["w"] .directory) ∧
      treeOfDocument.readText "/w/main.meow" = .ok "set a = 1;" :=
  ⟨by decide +kernel, eq_ok_of_toOption (by decide +kernel)⟩

theorem eq_of_isProgram_document {s : Server σ} {path : String} (hs : s.root = some "/w")
    (h : s.IsProgram treeOfDocument path) : path = "/w/main.meow" :=
  List.mem_singleton.mp (h.mem hs readText_treeOfDocument.1 (by decide +kernel))

theorem symbols_scan_document {s : Server σ} (hs : s.root = some "/w")
    (hscanned : s.scanned = false) : (s.scan treeOfDocument).server.index.symbols uriOfCycle =
      (survey uriOfCycle "set a = 1;").symbols (s.index.symbols uriOfCycle) := by
  obtain ⟨hlocate, hread⟩ := readText_treeOfDocument
  have hnamed : ∀ root, s.root = some root →
      treeOfDocument.locate (Path.tidy root) ≠ .error .nameTooLong := by
    intro root hroot hlong
    rw [hs] at hroot
    cases hroot
    rw [hlocate] at hlong
    cases hlong
  have hpassable : Passable treeOfDocument "/w/main.meow" :=
    passable_of_isClosed (by decide +kernel) hread [(uriOfCycle, "set a = 1;")]
      (by decide +kernel) List.mem_cons_self (by decide +kernel) (by decide +kernel)
  obtain ⟨-, hall⟩ := Server.scan_of_passable hscanned hnamed fun path h =>
    eq_of_isProgram_document hs h ▸ hpassable
  have hprogram : s.IsProgram treeOfDocument "/w/main.meow" :=
    isProgram_of_name "main.meow" _ hs hlocate
      (List.mem_cons_of_mem _ List.mem_cons_self) (by decide +kernel) (by decide +kernel)
  exact Index.symbols_of_lookup ((hall _ hprogram).1 _ hread)

/-- The workspace is looked through before the document is opened, so its file is not in the way of
what is then typed. -/
theorem documents_are_shown_as_sent_after_a_question :
    typed.Lawful ∧ treeOfDocument.readText "/w/main.meow" = .ok "set a = 1;" ∧
    (serverOfDocument.serveAll typed treeOfDocument
      ([.opened (Uri.ofPath "/w/other.meow") "zz", .hover (Uri.ofPath "/w/other.meow") ⟨0, 0⟩,
        .opened uriOfCycle "set b"] ++
        .changed uriOfCycle " = zz;" :: [.hover uriOfCycle ⟨0, 8⟩])).index.symbols uriOfCycle =
      [⟨"b", uriOfCycle, 0, 4, none⟩] := by
  let before : List (Request String) :=
    [.opened (Uri.ofPath "/w/other.meow") "zz", .hover (Uri.ofPath "/w/other.meow") ⟨0, 0⟩,
      .opened uriOfCycle "set b"]
  have hscanned : (serverOfDocument.serveAll typed treeOfDocument before).scanned = true := by
    have haddress : typed.objection? (Uri.ofPath "/w/other.meow") = none :=
      Workspace.objection?_ofTexts rfl
    have hheld := (serve_opened_typed treeOfDocument serverOfDocument "zz" haddress).1
    obtain ⟨index, hindex⟩ := Server.server_scan treeOfDocument
      (serverOfDocument.serve typed treeOfDocument (.opened (Uri.ofPath "/w/other.meow") "zz"))
    rw [Server.serveAll_cons, Server.serveAll_cons,
      serve_hover_typed hheld (by decide), hindex]
    exact Server.scanned_serveAll rfl
  have hkept (requests : List (Request String)) :
      (serverOfDocument.serveAll typed treeOfDocument (before ++ requests)).scanned = true := by
    rw [Server.serveAll_append]
    exact Server.scanned_serveAll hscanned
  have hother : Uri.ofPath "/w/other.meow" ≠ uriOfCycle := by decide +kernel
  obtain ⟨contents, hsurvey, hsymbols⟩ := documents_are_shown_as_sent typed
    (Workspace.ofTexts_lawful _) treeOfDocument serverOfDocument uriOfCycle "set b = zz;" before
    [.hover uriOfCycle ⟨0, 8⟩] (.changed uriOfCycle " = zz;")
    objection?_uriOfCycle rfl (by simp [Request.document?])
    (by simp [before, Workspace.lastText, Request.textAfter, hother, typed, Workspace.ofTexts])
    (exists_of_isOk (by decide +kernel)) (.inl ((hkept _).trans (hkept _).symm))
  refine ⟨Workspace.ofTexts_lawful _, readText_treeOfDocument.2, hsymbols.trans ?_⟩
  have hcontents : contents.symbols = (survey uriOfCycle "set b = zz;").symbols [] := by
    rw [hsurvey]
    rfl
  rw [hcontents]
  decide +kernel

/-- Looking through the workspace puts the file of an open document in the place of what was
sent. -/
theorem documents_are_not_always_shown_as_sent :
    ¬ ∀ (σ ε : Type) (W : Workspace σ ε) (files : FileTree) (s : Server σ) (uri text : String)
      (before after : List (Request ε)) (sent : Request ε), W.Lawful → W.objection? uri = none →
      sent.document? = some uri → (∀ r ∈ after, r.document? ≠ some uri) →
      W.lastText uri (before ++ [sent]) = some text →
      (∀ earlier, earlier <+: before ++ sent :: after → ∀ document content,
        W.lastText document earlier = some content → ∃ tokens, tokenize content = .ok tokens) →
      (∀ path, s.IsProgram files path → ∃ content tokens, files.readText path = .ok content ∧
        tokenize content = .ok tokens) →
      ∃ contents, survey uri text = .read contents ∧
        (s.serveAll W files (before ++ sent :: after)).index.symbols uri = contents.symbols := by
  intro h
  let opened : Request String := .opened uriOfCycle "set b = zz;"
  let question : Request String := .hover uriOfCycle ⟨0, 8⟩
  have hsent : ∀ earlier, earlier <+: [opened, question] → ∀ document content,
      typed.lastText document earlier = some content → ∃ tokens, tokenize content = .ok tokens := by
    intro earlier hearlier document content htext
    have hopened : (if uriOfCycle = document then some "set b = zz;" else none) = some content := by
      rcases List.prefix_cons_iff.mp hearlier with rfl | ⟨rest, rfl, hrest⟩
      · cases htext
      rcases List.prefix_cons_iff.mp hrest with rfl | ⟨rest, rfl, hnil⟩
      · exact htext
      · rw [List.prefix_nil.mp hnil] at htext
        exact htext
    obtain ⟨-, ⟨⟩⟩ := Option.ite_none_right_eq_some.mp hopened
    exact exists_of_isOk (by decide +kernel)
  have hfiles : ∀ path, serverOfDocument.IsProgram treeOfDocument path → ∃ content tokens,
      treeOfDocument.readText path = .ok content ∧ tokenize content = .ok tokens := by
    intro path hprogram
    obtain ⟨tokens, htokens⟩ := exists_of_isOk (show (tokenize "set a = 1;").isOk = true by
      decide +kernel)
    rw [eq_of_isProgram_document rfl hprogram]
    exact ⟨_, tokens, readText_treeOfDocument.2, htokens⟩
  obtain ⟨contents, hsurvey, hsymbols⟩ := h _ _ typed treeOfDocument serverOfDocument uriOfCycle
    "set b = zz;" [] [question] opened (Workspace.ofTexts_lawful _)
    objection?_uriOfCycle rfl (by simp [question, Request.document?])
    (by simp [opened, Workspace.lastText, Request.textAfter]) hsent hfiles
  have hcontents : contents.symbols = (survey uriOfCycle "set b = zz;").symbols [] := by
    rw [hsurvey]
    rfl
  obtain ⟨hheld, hscanned⟩ :=
    serve_opened_typed treeOfDocument serverOfDocument "set b = zz;" objection?_uriOfCycle
  rw [List.nil_append, Server.serveAll_cons, Server.serveAll_cons,
    serve_hover_typed hheld (by decide), hcontents] at hsymbols
  have hdiffer : (survey uriOfCycle "set a = 1;").symbols ((serverOfDocument.serve typed
      treeOfDocument opened).index.symbols uriOfCycle) ≠
      (survey uriOfCycle "set b = zz;").symbols [] := by decide +kernel
  exact hdiffer ((symbols_scan_document Server.root_serve hscanned).symm.trans hsymbols)

end MeowLang.Editor
