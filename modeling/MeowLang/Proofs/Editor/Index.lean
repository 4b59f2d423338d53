import Mathlib.Data.Finset.Card
import MeowLang.Editor.Index
import MeowLang.Proofs.Assoc
import MeowLang.Proofs.Editor.Uri
import MeowLang.Proofs.File.Tree
import MeowLang.Proofs.Program.Progress

/-! Which documents an index comes to know. Taking in a document follows its loads depth first and
makes every document known before it is read, so the search ends; what it leaves is exactly the
documents that loads lead to, and taking in the same text again changes nothing. -/
namespace MeowLang

theorem Uri.ofPath_injective : Function.Injective Uri.ofPath := by
  intro p q h
  have hescaped : String.ofList (escaped p) = String.ofList (escaped q) := by
    rw [← String.toList_inj]
    have hlists := congrArg String.toList h
    rw [ofPath, ofPath, String.toList_append, String.toList_append] at hlists
    exact List.append_cancel_left hlists
  rw [← unquote_escaped p, hescaped, unquote_escaped]

theorem eq_ok_of_toOption {ε α : Type} {r : Except ε α} {a : α} (h : r.toOption = some a) :
    r = .ok a := by
  cases r with
  | error e => cases h
  | ok b => exact congrArg Except.ok (Option.some.inj h)

namespace Editor

/-! ### Indexes -/

namespace Index

variable {i : Index} {uri document : String} {symbols : List Symbol}

theorem contains_iff : i.contains document = true ↔ ∃ s, i.documents.lookup document = some s := by
  rw [contains, Assoc.contains, Option.isSome_iff_exists]

theorem contains_claim :
    (i.claim uri).contains document = true ↔ document = uri ∨ i.contains document = true := by
  rw [claim]
  split
  · rename_i h
    constructor
    · exact .inr
    · rintro (rfl | h)
      · assumption
      · exact h
  · simp only [contains, Assoc.contains_iff, List.map_append, List.map_cons, List.map_nil,
      List.mem_append, List.mem_singleton]
    exact or_comm

theorem lookup_claim_of_ne (h : document ≠ uri) :
    (i.claim uri).documents.lookup document = i.documents.lookup document := by
  rw [claim]
  split
  · rfl
  · simp [List.lookup_append, List.lookup_cons, beq_eq_false_iff_ne.mpr h]

theorem lookup_put_self : (i.put uri symbols).documents.lookup uri = some symbols :=
  Assoc.lookup_insert_self ..

theorem lookup_put_of_ne (h : document ≠ uri) :
    (i.put uri symbols).documents.lookup document = i.documents.lookup document :=
  Assoc.lookup_insert_of_ne h ..

/-- Known symbols can be set again. -/
theorem put_claim_of_lookup (h : i.documents.lookup uri = some symbols) :
    (i.claim uri).put uri symbols = i := by
  rw [claim, if_pos (contains_iff.mpr ⟨_, h⟩), put, Assoc.insert_of_lookup h]

theorem rebuild_rebuild (i : Index) : i.rebuild.rebuild = i.rebuild := rfl

end Index

/-! ### Steps of indexing -/

namespace Indexing

variable {α β : Type} {d d' : Desk} {uri text name path : String}

theorem run_bind {p : Indexing α} {f : α → Indexing β} {a : α} (h : p.run d = (.ok a, d')) :
    (p >>= f).run d = (f a).run d' := by
  show (StateT.bind p.run fun r => ExceptT.bindCont f r) d = _
  simp only [StateT.bind, h]
  rfl

theorem run_change (f : Index → Index) :
    (change f).run d = (.ok (), { d with index := f d.index }) := rfl

theorem run_contents {contents : Contents} (h : survey uri text = .read contents) :
    (Indexing.contents uri text).run d = (.ok contents, d) := by
  simp only [Indexing.contents, h]
  rfl

theorem run_get : (get : Indexing Desk).run d = (.ok d, d) := rfl

theorem run_liftExcept {a : α} : (follow.liftExcept (.ok a)).run d = (.ok a, d) := rfl

theorem run_follow_known {files : FileTree} (htarget : target files uri name = .ok path)
    (h : d.index.contains (Uri.ofPath path) = true) :
    (follow files uri name).run d = (.ok none, d) := by
  rw [follow, htarget, run_bind run_liftExcept, run_bind run_get]
  simp only [h]
  rfl

theorem run_follow_read {files : FileTree} (htarget : target files uri name = .ok path)
    (h : d.index.contains (Uri.ofPath path) = false) (hread : files.readText path = .ok text) :
    (follow files uri name).run d = (.ok (some (Uri.ofPath path, text)), d) := by
  rw [follow, htarget, run_bind run_liftExcept, run_bind run_get]
  simp only [h, hread]
  rfl

theorem run_follow_unread {files : FileTree} {reason : Halt}
    (htarget : target files uri name = .ok path)
    (h : d.index.contains (Uri.ofPath path) = false)
    (hread : files.readText path = .error reason) :
    (follow files uri name).run d =
      (.ok none, { d with notes := d.notes ++ [.notFollowed name uri reason] }) := by
  rw [follow, htarget, run_bind run_liftExcept, run_bind run_get]
  simp only [h, hread]
  rfl

/-- Every path that a document means by a name leads from the root along plain names. -/
theorem exists_of_target {files : FileTree} (h : target files uri name = .ok path) :
    ∃ cs, (∀ c ∈ cs, Path.Plain c) ∧ path = Path.under "/" cs := by
  unfold target at h
  cases hp : Uri.path uri with
  | error fault => simp [hp, bind, Except.bind, Except.mapError] at h
  | ok p =>
    simp only [hp, bind, Except.bind, Except.mapError] at h
    split at h
    · cases h
    · unfold resolve at h
      split at h
      · cases h
      · cases h
        obtain ⟨cs, hcs, hpath, -⟩ := Path.exists_resolve _ _
        exact ⟨cs, hcs, hpath⟩

/-- A document that has a path means a path by every name that paths can hold. -/
theorem exists_target {files : FileTree} {p : String} (haddress : Uri.path uri = .ok p)
    (hnul : Path.hasNul (Path.join (FileTree.pathTo files.workingDirectory) p) = false)
    (hname : Path.hasNul name = false) : ∃ path, target files uri name = .ok path := by
  obtain ⟨cs, hcs, hresolve, hplain⟩ :=
    Path.exists_resolve (FileTree.pathTo files.workingDirectory) p
  have hparent : Path.hasNul (Path.parent (Path.under "/" cs)) = false := by
    rw [Path.parent_under (.inl rfl) hcs, Path.hasNul_under (.inl rfl)]
    exact fun c hc => hplain hnul c (List.dropLast_subset _ hc)
  have hlibrary := Path.hasNul_join hparent
    (Path.hasNul_append hname (show Path.hasNul Path.sourceSuffix = false by decide))
  have hdocument : resolve files p = .ok (Path.under "/" cs) := by
    rw [resolve, Path.hasNul_of_join hnul, if_neg Bool.false_ne_true, hresolve]
  have htarget : target files uri name =
      resolve files (Path.join (Path.parent (Path.under "/" cs)) (name ++ Path.sourceSuffix)) := by
    rw [target, haddress]
    show resolve files p >>= _ = _
    rw [hdocument]
    rfl
  rw [htarget, resolve, hlibrary, if_neg Bool.false_ne_true]
  exact ⟨_, rfl⟩

end Indexing

/-! ### Documents that loads lead to -/

/-- A text loads a library in a file at its top level. -/
def Loads (text name : String) : Prop :=
  ∃ parsed line, Parsed.ofSource text = .ok parsed ∧ Stmt.load name line ∈ parsed.program ∧
    Library.isBuiltIn name = false

/-- The documents that loads lead to, with their texts. The first one has the text that it was
taken in with; the others are files. -/
inductive Reached (files : FileTree) (uri text : String) : String → String → Prop
  | self : Reached files uri text uri text
  | file {document content name path next : String} (origin : Reached files uri text document content)
      (loads : Loads content name) (target : Indexing.target files document name = .ok path)
      (other : Uri.ofPath path ≠ uri) (read : files.readText path = .ok next) :
      Reached files uri text (Uri.ofPath path) next

/-- Nothing on the way along the loads of a document stops the indexing: no numeral is malformed,
and no address or name holds what paths cannot hold. -/
structure Indexable (files : FileTree) (uri text : String) : Prop where
  numerals : ∀ document content, Reached files uri text document content →
    ∃ tokens, tokenize content = .ok tokens
  address : ∀ name, Loads text name → ∃ path, Uri.path uri = .ok path ∧
    Path.hasNul (Path.join (FileTree.pathTo files.workingDirectory) path) = false
  names : ∀ document content name, Reached files uri text document content →
    Loads content name → Path.hasNul name = false

section

variable {files : FileTree} {uri text document content name : String}

theorem Reached.eq_text (h : Reached files uri text document content) (hd : document = uri) :
    content = text := by
  cases h with
  | self => rfl
  | file _ _ _ other => exact absurd hd other

/-- A document has one text. -/
theorem Reached.unique {content' : String} (h : Reached files uri text document content)
    (h' : Reached files uri text document content') : content = content' := by
  cases h with
  | self => exact (h'.eq_text rfl).symm
  | file _ _ _ other read =>
    generalize hd : Uri.ofPath _ = document at h' other
    cases h' with
    | self => exact absurd rfl other
    | file _ _ _ _ read' =>
      rw [Uri.ofPath_injective hd, read'] at read
      exact (Except.ok.inj read).symm

/-- A text without malformed numerals is looked through to its end. -/
theorem exists_survey (h : ∃ tokens, tokenize content = .ok tokens) (document : String) :
    ∃ contents, survey document content = .read contents ∧
      ∀ name, name ∈ contents.includes ↔ Loads content name := by
  obtain ⟨tokens, htokens⟩ := h
  rcases Parsed.ofSource_cases content with ⟨e, he, -⟩ | ⟨_, _, _, _, -, -, -, -, -, -, -, hsource⟩
  · rw [htokens] at he
    cases he
  · refine ⟨_, survey_of_ofSource hsource document, fun name => ?_⟩
    simp only [Contents.ofProgram, List.mem_filterMap, Loads, hsource]
    constructor
    · rintro ⟨s, hs, hname⟩
      cases s with
      | load other line =>
        simp only [Contents.include?] at hname
        split at hname
        · cases hname
        · rename_i hown
          cases hname
          exact ⟨_, line, rfl, hs, by simpa using hown⟩
      | _ => cases hname
    · rintro ⟨parsed, line, hparsed, hs, hown⟩
      cases hparsed
      exact ⟨_, hs, by simp [Contents.include?, hown]⟩

/-- The libraries in files that are found by looking through a document. -/
def Survey.includes : Survey → List String
  | .read contents => contents.includes
  | .keep _ | .refuse _ => []

theorem mem_includes_iff (document content name : String) :
    name ∈ (survey document content).includes ↔ Loads content name := by
  rcases Parsed.ofSource_cases content with ⟨e, -, he⟩ | ⟨tokens, _, _, _, htokens, -⟩
  · have hnone : (survey document content).includes = [] := by
      unfold survey
      rw [Parsed.ofSource] at he
      split at he
      · simp_all [Survey.includes]
      · simp_all [Survey.includes]
    simp [hnone, Loads, he]
  · obtain ⟨contents, hsurvey, hincludes⟩ := exists_survey ⟨tokens, htokens⟩ document
    rw [hsurvey]
    exact hincludes name

/-- A list of documents with their texts is closed under loads. -/
def isClosed (files : FileTree) (uri : String) (documents : List (String × String)) : Bool :=
  documents.all fun (document, content) => (survey document content).includes.all fun name =>
    match Indexing.target files document name with
    | .error _ => true
    | .ok path => Uri.ofPath path == uri ||
      match files.readText path with
      | .error _ => true
      | .ok next => documents.contains (Uri.ofPath path, next)

/-- The documents that loads lead to are the least that are closed under loads. -/
theorem Reached.mem_of_isClosed {documents : List (String × String)}
    (h : isClosed files uri documents = true) (hself : (uri, text) ∈ documents)
    (hreached : Reached files uri text document content) : (document, content) ∈ documents := by
  induction hreached with
  | self => exact hself
  | file _ loads target other read ih =>
    have hinner := List.all_eq_true.mp (List.all_eq_true.mp h _ ih) _
      ((mem_includes_iff _ _ _).mpr loads)
    simpa [target, other, read] using hinner

/-- A name without NUL means a path wherever it is met. -/
theorem Reached.exists_target_of_names (haddress : ∀ name, Loads text name → ∃ path,
      Uri.path uri = .ok path ∧
        Path.hasNul (Path.join (FileTree.pathTo files.workingDirectory) path) = false)
    (hreached : Reached files uri text document content) (hloads : Loads content name)
    (hname : Path.hasNul name = false) :
    ∃ path, Indexing.target files document name = .ok path := by
  cases hreached with
  | self =>
    obtain ⟨p, hp, hnul⟩ := haddress _ hloads
    exact Indexing.exists_target hp hnul hname
  | file _ _ target _ read =>
    obtain ⟨cs, hcs, rfl⟩ := Indexing.exists_of_target target
    have hstart : Path.IsStart "/" := .inl rfl
    obtain ⟨rest, hrest⟩ := Path.isAbsolute_iff.mp (Path.isAbsolute_under hstart)
    apply Indexing.exists_target (Uri.path_ofPath hrest) _ hname
    rw [Path.tidy_under hstart hcs, Path.join, if_pos (Path.isAbsolute_under hstart)]
    exact FileTree.hasNul_of_readText read

/-- Every load that is met on the way means a path. -/
theorem Reached.exists_target (h : Indexable files uri text)
    (hreached : Reached files uri text document content) (hloads : Loads content name) :
    ∃ path, Indexing.target files document name = .ok path :=
  hreached.exists_target_of_names h.address hloads (h.names _ _ _ hreached hloads)

end

/-! ### The search -/

/-- What is done for one load of a document. -/
def Indexing.followOne (files : FileTree) (bound : Nat) (document name : String) : Indexing Unit := do
  match ← follow files document name with
  | none => pure ()
  | some (address, text) => update files bound address text

theorem Indexing.update_succ (files : FileTree) (bound : Nat) (document content : String) :
    update files (bound + 1) document content = (do
      change (·.claim document)
      let found ← contents document content
      change (·.put document found.symbols)
      found.includes.forM (followOne files bound document)
      change Index.rebuild) := rfl

/-- An index has what the text of a document binds, and the files that the text loads. -/
structure Finished (files : FileTree) (i : Index) (document content : String) : Prop where
  symbols : ∃ contents, survey document content = .read contents ∧
    i.documents.lookup document = some contents.symbols
  closed : ∀ name path next, Loads content name →
    Indexing.target files document name = .ok path → files.readText path = .ok next →
    i.contains (Uri.ofPath path) = true

/-- An index has grown: what it knew it knows unchanged, and what is new was reached and is
finished. -/
structure Grown (files : FileTree) (uri text : String) (i i' : Index) : Prop where
  kept : ∀ document symbols, i.documents.lookup document = some symbols →
    i'.documents.lookup document = some symbols
  new : ∀ document, i'.contains document = true → i.contains document = true ∨
    ∃ content, Reached files uri text document content ∧ Finished files i' document content

section

variable {files : FileTree} {uri text document content name path next : String} {i i' i'' : Index}
  {d : Desk}

theorem Grown.contains (h : Grown files uri text i i') (hd : i.contains document = true) :
    i'.contains document = true := by
  obtain ⟨s, hs⟩ := Index.contains_iff.mp hd
  exact Index.contains_iff.mpr ⟨s, h.kept _ _ hs⟩

theorem Finished.grown (h : Finished files i document content) (hg : Grown files uri text i i') :
    Finished files i' document content := by
  obtain ⟨contents, hs, hl⟩ := h.symbols
  exact ⟨⟨contents, hs, hg.kept _ _ hl⟩, fun name path next hloads htarget hread =>
    hg.contains (h.closed name path next hloads htarget hread)⟩

theorem Grown.refl : Grown files uri text i i := ⟨fun _ _ h => h, fun _ h => .inl h⟩

theorem Grown.trans (h : Grown files uri text i i') (h' : Grown files uri text i' i'') :
    Grown files uri text i i'' := by
  constructor
  · intro document symbols hl
    exact h'.kept _ _ (h.kept _ _ hl)
  · intro document hd
    rcases h'.new document hd with hd | hnew
    · rcases h.new document hd with hd | ⟨content, hreached, hfinished⟩
      · exact .inl hd
      · exact .inr ⟨content, hreached, hfinished.grown h'⟩
    · exact .inr hnew

/-- The addresses of the files of a tree that an index does not know. -/
def unknown (files : FileTree) (i : Index) : Finset String :=
  (files.nodes.map fun (place, _) => Uri.ofPath (Path.under "/" place)).toFinset.filter
    fun address => i.contains address = false

theorem card_unknown_le (files : FileTree) (i : Index) :
    (unknown files i).card ≤ files.nodes.length := by
  refine (Finset.card_filter_le _ _).trans ((List.toFinset_card_le _).trans ?_)
  rw [List.length_map]

theorem unknown_subset (h : ∀ document, i.contains document = true → i'.contains document = true) :
    unknown files i' ⊆ unknown files i := by
  apply Finset.monotone_filter_right
  intro address _ hunknown
  rw [Bool.eq_false_iff] at hunknown ⊢
  exact fun hknown => hunknown (h address hknown)

/-- A file that is made known is one unknown file less. -/
theorem card_unknown_claim (htarget : Indexing.target files document name = .ok path)
    (hread : files.readText path = .ok next) (hd : i.contains (Uri.ofPath path) = false) :
    (unknown files (i.claim (Uri.ofPath path))).card < (unknown files i).card := by
  obtain ⟨cs, hcs, rfl⟩ := Indexing.exists_of_target htarget
  obtain ⟨octets, hnode⟩ := FileTree.mem_of_readText_under (.inl rfl) hcs hread
  have hmem : Uri.ofPath (Path.under "/" cs) ∈ unknown files i := by
    simp only [unknown, Finset.mem_filter, List.mem_toFinset, List.mem_map]
    exact ⟨⟨_, hnode, rfl⟩, hd⟩
  apply Finset.card_lt_card
  refine ⟨unknown_subset fun _ hknown => Index.contains_claim.mpr (.inr hknown), fun hsubset => ?_⟩
  · have hclaimed := (Finset.mem_filter.mp (hsubset hmem)).2
    rw [Index.contains_claim.mpr (.inl rfl)] at hclaimed
    cases hclaimed

/-- Every document that is reached and not known yet can be taken in while at most `n` files are
unknown: every bound above `n` leads to the same desk, and the index has grown by the document. -/
def TakesIn (files : FileTree) (uri text : String) (n : Nat) : Prop :=
  ∀ (d : Desk) (document content : String), Reached files uri text document content →
    d.index.contains document = false → document = uri ∨ d.index.contains uri = true →
    (unknown files (d.index.claim document)).card ≤ n →
    ∃ d' : Desk, (∀ bound, n < bound →
        (Indexing.update files bound document content).run d = (.ok (), d')) ∧
      Grown files uri text d.index d'.index ∧ d'.index.contains document = true ∧
      d'.index.rebuild = d'.index

/-- Following one load: if it leads to a file that can be read, the file is known afterwards. -/
theorem followOne_grown (h : Indexable files uri text)
    (hreached : Reached files uri text document content) (hloads : Loads content name) {n : Nat}
    (ih : ∀ m < n, TakesIn files uri text m) (huri : d.index.contains uri = true)
    (hd : (unknown files d.index).card ≤ n) :
    ∃ d' : Desk, (∀ bound, n ≤ bound →
        (Indexing.followOne files bound document name).run d = (.ok (), d')) ∧
      Grown files uri text d.index d'.index ∧
      ∀ path next, Indexing.target files document name = .ok path →
        files.readText path = .ok next → d'.index.contains (Uri.ofPath path) = true := by
  obtain ⟨path, htarget⟩ := hreached.exists_target h hloads
  rw [htarget]
  cases hknown : d.index.contains (Uri.ofPath path) with
  | true =>
    refine ⟨d, fun bound _ => Indexing.run_bind (Indexing.run_follow_known htarget hknown),
      .refl, ?_⟩
    rintro _ _ ⟨⟩ _
    exact hknown
  | false =>
    cases hread : files.readText path with
    | error reason =>
      refine ⟨_, fun bound _ => Indexing.run_bind (Indexing.run_follow_unread htarget hknown hread),
        .refl, ?_⟩
      rintro _ next ⟨⟩ hread'
      rw [hread] at hread'
      cases hread'
    | ok next =>
      have hfewer := card_unknown_claim htarget hread hknown
      have hother : Uri.ofPath path ≠ uri := by
        rintro rfl
        rw [huri] at hknown
        cases hknown
      obtain ⟨d', hrun, hgrown, hcontains, -⟩ := ih _ (by omega) d _ _
        (hreached.file hloads htarget hother hread) hknown (.inr huri) le_rfl
      refine ⟨d', fun bound hbound => ?_, hgrown, ?_⟩
      · rw [Indexing.followOne,
          Indexing.run_bind (Indexing.run_follow_read htarget hknown hread)]
        exact hrun bound (by omega)
      · rintro _ _ ⟨⟩ _
        exact hcontains

/-- Following the loads of a document one after the other. -/
theorem followAll_grown (h : Indexable files uri text)
    (hreached : Reached files uri text document content) {n : Nat}
    (ih : ∀ m < n, TakesIn files uri text m) {names : List String}
    (hnames : ∀ name ∈ names, Loads content name) (huri : d.index.contains uri = true)
    (hd : (unknown files d.index).card ≤ n) :
    ∃ d' : Desk, (∀ bound, n ≤ bound →
        (names.forM (Indexing.followOne files bound document)).run d = (.ok (), d')) ∧
      Grown files uri text d.index d'.index ∧
      ∀ name ∈ names, ∀ path next, Indexing.target files document name = .ok path →
        files.readText path = .ok next → d'.index.contains (Uri.ofPath path) = true := by
  induction names generalizing d with
  | nil => exact ⟨d, fun _ _ => rfl, .refl, by simp⟩
  | cons name names ihnames =>
    rw [List.forall_mem_cons] at hnames
    obtain ⟨d₁, hrun₁, hgrown₁, hknown₁⟩ := followOne_grown h hreached hnames.1 ih huri hd
    have hd₁ := (Finset.card_le_card (unknown_subset fun _ => hgrown₁.contains)).trans hd
    obtain ⟨d₂, hrun₂, hgrown₂, hknown₂⟩ := ihnames hnames.2 (hgrown₁.contains huri) hd₁
    refine ⟨d₂, fun bound hbound => ?_, hgrown₁.trans hgrown₂, ?_⟩
    · rw [List.forM, Indexing.run_bind (hrun₁ bound hbound)]
      exact hrun₂ bound hbound
    · rw [List.forall_mem_cons]
      exact ⟨fun path next htarget hread => hgrown₂.contains (hknown₁ path next htarget hread),
        hknown₂⟩

/-- The step of the search: a document is made known, its loads are followed, and what they led to
and the document itself are new. -/
theorem takesIn_of_lt (h : Indexable files uri text) {n : Nat}
    (ih : ∀ m < n, TakesIn files uri text m) : TakesIn files uri text n := by
  intro d document content hreached hnew huri hd
  obtain ⟨contents, hsurvey, hincludes⟩ := exists_survey (h.numerals _ _ hreached) document
  generalize hi : (d.index.claim document).put document contents.symbols = i
  have hself : i.documents.lookup document = some contents.symbols := hi ▸ Index.lookup_put_self
  have hother {other : String} (hne : other ≠ document) :
      i.documents.lookup other = d.index.documents.lookup other := by
    rw [← hi, Index.lookup_put_of_ne hne, Index.lookup_claim_of_ne hne]
  have hcontains (other : String) :
      i.contains other = true ↔ other = document ∨ d.index.contains other = true := by
    by_cases hne : other = document
    · simp [Index.contains_iff, hne, hself]
    · simp [Index.contains_iff, hother hne, hne]
  have hfewer : (unknown files i).card ≤ n := by
    refine (Finset.card_le_card (unknown_subset fun other hclaimed => ?_)).trans hd
    exact (hcontains other).mpr (Index.contains_claim.mp hclaimed)
  obtain ⟨d', hrun, hgrown, hknown⟩ := followAll_grown (d := ⟨i, d.notes⟩) h hreached ih
    (fun name => (hincludes name).mp) ((hcontains uri).mpr (huri.imp_left Eq.symm)) hfewer
  refine ⟨⟨d'.index.rebuild, d'.notes⟩, ?_, ⟨?_, ?_⟩, ?_, d'.index.rebuild_rebuild⟩
  · intro bound hbound
    obtain ⟨bound, rfl⟩ : ∃ b, bound = b + 1 := ⟨bound - 1, by omega⟩
    rw [Indexing.update_succ, Indexing.run_bind (Indexing.run_change _),
      Indexing.run_bind (Indexing.run_contents hsurvey), Indexing.run_bind (Indexing.run_change _)]
    simp only [hi]
    rw [Indexing.run_bind (hrun bound (by omega)), Indexing.run_change]
  · intro other symbols hl
    apply hgrown.kept
    rw [hother, hl]
    rintro rfl
    rw [Index.contains_iff.mpr ⟨_, hl⟩] at hnew
    cases hnew
  · intro other hl
    rcases hgrown.new other hl with hl | ⟨content, hreached, hfinished⟩
    · rcases (hcontains other).mp hl with rfl | hl
      · refine .inr ⟨content, hreached, ⟨contents, hsurvey, hgrown.kept _ _ hself⟩, ?_⟩
        intro name path next hloads
        exact hknown name ((hincludes name).mpr hloads) path next
      · exact .inl hl
    · exact .inr ⟨content, hreached, hfinished.symbols, hfinished.closed⟩
  · exact hgrown.contains ((hcontains document).mpr (.inl rfl))

theorem takesIn (h : Indexable files uri text) (n : Nat) : TakesIn files uri text n := by
  induction n using Nat.strong_induction_on with
  | _ n ih => exact takesIn_of_lt h ih

/-! ### Taking in a text again -/

theorem followOne_known (h : Indexable files uri text)
    (hreached : Reached files uri text document content) (hloads : Loads content name)
    (hfinished : Finished files d.index document content) (bound : Nat) :
    ∃ notes, (Indexing.followOne files bound document name).run d = (.ok (), ⟨d.index, notes⟩) := by
  obtain ⟨path, htarget⟩ := hreached.exists_target h hloads
  cases hknown : d.index.contains (Uri.ofPath path) with
  | true => exact ⟨d.notes, Indexing.run_bind (Indexing.run_follow_known htarget hknown)⟩
  | false =>
    cases hread : files.readText path with
    | error reason =>
      exact ⟨_, Indexing.run_bind (Indexing.run_follow_unread htarget hknown hread)⟩
    | ok next =>
      rw [hfinished.closed _ _ _ hloads htarget hread] at hknown
      cases hknown

theorem followAll_known (h : Indexable files uri text)
    (hreached : Reached files uri text document content) {names : List String}
    (hnames : ∀ name ∈ names, Loads content name)
    (hfinished : Finished files d.index document content) (bound : Nat) :
    ∃ notes, (names.forM (Indexing.followOne files bound document)).run d =
      (.ok (), ⟨d.index, notes⟩) := by
  induction names generalizing d with
  | nil => exact ⟨d.notes, rfl⟩
  | cons name names ih =>
    rw [List.forall_mem_cons] at hnames
    obtain ⟨notes, hrun⟩ := followOne_known h hreached hnames.1 hfinished bound
    obtain ⟨notes', hrun'⟩ := ih (d := ⟨d.index, notes⟩) hnames.2 hfinished
    refine ⟨notes', ?_⟩
    rw [List.forM, Indexing.run_bind hrun]
    exact hrun'

/-- A document that is finished brings nothing new. -/
theorem update_finished (h : Indexable files uri text) (hfinished : Finished files i uri text)
    (hi : i.rebuild = i) : ∃ notes, Index.update files i uri text = (.ok (), ⟨i, notes⟩) := by
  obtain ⟨contents, hsurvey, hincludes⟩ := exists_survey (h.numerals _ _ .self) uri
  have hlookup : i.documents.lookup uri = some contents.symbols := by
    obtain ⟨contents', hsurvey', hlookup⟩ := hfinished.symbols
    rw [hsurvey] at hsurvey'
    cases hsurvey'
    exact hlookup
  obtain ⟨notes, hrun⟩ := followAll_known (d := ⟨i, []⟩) h .self
    (fun name => (hincludes name).mp) hfinished files.nodes.length
  refine ⟨notes, ?_⟩
  rw [Index.update, Indexing.ampleDepth, Indexing.update_succ,
    Indexing.run_bind (Indexing.run_change _), Indexing.run_bind (Indexing.run_contents hsurvey),
    Indexing.run_bind (Indexing.run_change _)]
  simp only [Index.put_claim_of_lookup hlookup]
  rw [Indexing.run_bind hrun, Indexing.run_change]
  simp only [hi]

end

/-- Taking a text for the contents of a document comes to an end, whatever the bound beyond the
number of files. The index then knows exactly the documents that loads lead to, each with the names
that its text binds, and taking in the same text again changes nothing. -/
theorem indexing_follows_loads (files : FileTree) (uri text : String)
    (h : Indexable files uri text) :
    ∃ (i : Index) (notes : List Note),
      Index.update files .empty uri text = (.ok (), ⟨i, notes⟩) ∧
      (∀ bound, Indexing.ampleDepth files ≤ bound →
        (Indexing.update files bound uri text).run ⟨.empty, []⟩ = (.ok (), ⟨i, notes⟩)) ∧
      (∀ document, i.contains document = true ↔
        ∃ content, Reached files uri text document content) ∧
      (∀ document content, Reached files uri text document content →
        ∃ contents, survey document content = .read contents ∧
          i.symbols document = contents.symbols) ∧
      ∃ notes', Index.update files i uri text = (.ok (), ⟨i, notes'⟩) := by
  obtain ⟨⟨i, notes⟩, hrun, hgrown, hcontains, hrebuild⟩ :=
    takesIn h files.nodes.length ⟨.empty, []⟩ uri text .self rfl (.inl rfl) (card_unknown_le _ _)
  have hfinished {document : String} (hd : i.contains document = true) :
      ∃ content, Reached files uri text document content ∧ Finished files i document content :=
    (hgrown.new document hd).resolve_left (by simp [Index.contains, Index.empty, Assoc.contains])
  -- the documents that are known hold the first one and are closed under loads
  have hall {document content : String} (hreached : Reached files uri text document content) :
      i.contains document = true := by
    induction hreached with
    | self => exact hcontains
    | file origin loads target other read ih =>
      obtain ⟨content', hreached', hclosed⟩ := hfinished ih
      rw [hreached'.unique origin] at hclosed
      exact hclosed.closed _ _ _ loads target read
  refine ⟨i, notes, hrun _ (Nat.lt_succ_self _), fun bound hbound => hrun bound hbound,
    fun document => ⟨fun hd => ?_, fun hd => hd.elim fun _ => hall⟩, ?_, ?_⟩
  · obtain ⟨content, hreached, -⟩ := hfinished hd
    exact ⟨content, hreached⟩
  · intro document content hreached
    obtain ⟨content', hreached', hdone⟩ := hfinished (hall hreached)
    obtain ⟨contents, hsurvey, hlookup⟩ := hdone.symbols
    rw [hreached'.unique hreached] at hsurvey
    exact ⟨contents, hsurvey, by simp [Index.symbols, hlookup]⟩
  · obtain ⟨content, hreached, hdone⟩ := hfinished hcontains
    rw [hreached.eq_text rfl] at hdone
    exact update_finished h hdone hrebuild

/-- Whether numerals are malformed can be told from documents that are closed under loads. -/
theorem Reached.exists_tokens {files : FileTree} {uri text document content : String}
    (hreached : Reached files uri text document content) (documents : List (String × String))
    (hclosed : isClosed files uri documents = true) (hself : (uri, text) ∈ documents)
    (hnumerals : ∀ p ∈ documents, (tokenize p.2).isOk = true) :
    ∃ tokens, tokenize content = .ok tokens := by
  have hok := hnumerals _ (hreached.mem_of_isClosed hclosed hself)
  cases htokens : tokenize content with
  | ok tokens => exact ⟨tokens, rfl⟩
  | error e => simp [htokens, Except.isOk, Except.toBool] at hok

/-- The text of a library that loads itself and the document that loads it. -/
def textOfCycle : String := "include \"main\"; include \"lib\"; set x = 1;"

def treeOfCycle : FileTree :=
  ⟨[(["w"], .directory), (["w", "lib.meow"], .file (Text.Utf8.encode textOfCycle))], ["w"]⟩

def uriOfCycle : String := Uri.ofPath "/w/main.meow"

theorem reached_treeOfCycle {text : String} (h : Loads text "lib") :
    Reached treeOfCycle uriOfCycle text (Uri.ofPath "/w/lib.meow") textOfCycle := by
  have htarget : (Indexing.target treeOfCycle uriOfCycle "lib").toOption = some "/w/lib.meow" := by
    decide +kernel
  have hread : (treeOfCycle.readText "/w/lib.meow").toOption = some textOfCycle := by
    decide +kernel
  exact Reached.self.file h (eq_ok_of_toOption htarget) (by decide +kernel) (eq_ok_of_toOption hread)

theorem indexable_treeOfCycle :
    Indexable treeOfCycle uriOfCycle "include \"lib\"; include \"gone\";" ∧
      Loads "include \"lib\"; include \"gone\";" "lib" := by
  let documents := [(uriOfCycle, "include \"lib\"; include \"gone\";"),
    (Uri.ofPath "/w/lib.meow", textOfCycle)]
  have hclosed : isClosed treeOfCycle uriOfCycle documents = true := by decide +kernel
  have hself : (uriOfCycle, "include \"lib\"; include \"gone\";") ∈ documents :=
    List.mem_cons_self
  have hnames : ∀ p ∈ documents, ∀ name ∈ (survey p.1 p.2).includes, Path.hasNul name = false := by
    decide +kernel
  refine ⟨?_, (mem_includes_iff uriOfCycle _ _).mp (by decide +kernel)⟩
  constructor
  · intro document content hreached
    exact hreached.exists_tokens documents hclosed hself (by decide +kernel)
  · exact fun _ _ => ⟨_, Uri.path_ofPath rfl, by decide +kernel⟩
  · intro document content name hreached hloads
    exact hnames _ (hreached.mem_of_isClosed hclosed hself) name
      ((mem_includes_iff _ _ _).mpr hloads)

/-- The loads run in a cycle, and one of them leads nowhere. -/
theorem indexing_follows_loads_around_a_cycle :
    Indexable treeOfCycle uriOfCycle "include \"lib\"; include \"gone\";" ∧
    ∃ (i : Index) (notes notes' : List Note),
      Index.update treeOfCycle .empty uriOfCycle "include \"lib\"; include \"gone\";" =
        (.ok (), ⟨i, notes⟩) ∧
      i.contains (Uri.ofPath "/w/lib.meow") = true ∧
      Index.update treeOfCycle i uriOfCycle "include \"lib\"; include \"gone\";" =
        (.ok (), ⟨i, notes'⟩) := by
  obtain ⟨hindexable, hloads⟩ := indexable_treeOfCycle
  obtain ⟨i, notes, hrun, -, hreached, -, notes', hagain⟩ :=
    indexing_follows_loads treeOfCycle uriOfCycle "include \"lib\"; include \"gone\";" hindexable
  exact ⟨hindexable, i, notes, notes', hrun, (hreached _).mpr ⟨_, reached_treeOfCycle hloads⟩, hagain⟩

/-- Without malformed numerals, a name that no path can hold still keeps the loads behind it from
being followed. -/
theorem indexing_stops_at_a_name :
    ¬ ∀ (files : FileTree) (uri text : String),
      (∀ document content, Reached files uri text document content →
        ∃ tokens, tokenize content = .ok tokens) →
      ∀ document content, Reached files uri text document content →
        (Index.update files .empty uri text).2.index.contains document = true := by
  intro h
  have hloads : Loads "include \"x\x00y\"; include \"lib\";" "lib" :=
    (mem_includes_iff uriOfCycle _ _).mp (by decide +kernel)
  have hnumerals : ∀ document content,
      Reached treeOfCycle uriOfCycle "include \"x\x00y\"; include \"lib\";" document content →
      ∃ tokens, tokenize content = .ok tokens := by
    intro document content hreached
    apply hreached.exists_tokens [(uriOfCycle, "include \"x\x00y\"; include \"lib\";"),
      (Uri.ofPath "/w/lib.meow", textOfCycle)]
    all_goals decide +kernel
  have hknown := h treeOfCycle uriOfCycle "include \"x\x00y\"; include \"lib\";" hnumerals _ _
    (reached_treeOfCycle hloads)
  have hunknown : (Index.update treeOfCycle .empty uriOfCycle
      "include \"x\x00y\"; include \"lib\";").2.index.contains (Uri.ofPath "/w/lib.meow") =
        false := by
    decide +kernel
  rw [hunknown] at hknown
  cases hknown

end Editor

end MeowLang
