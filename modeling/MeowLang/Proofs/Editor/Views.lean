import MeowLang.Proofs.Editor.Numerals

/-! The two views of an index: symbols by their documents, and symbols by their names. Names are
gathered at the end of a change only. So the views agree after every change that returns, whatever
the changes before it did, and a change that is stopped on the way can leave them apart. -/
namespace MeowLang.Editor

namespace Index

variable {i : Index} {name : String}

/-! ### Gathering names -/

/-- All symbols of a name, in the order of the documents and in that of each document. -/
def named (i : Index) (name : String) : List Symbol :=
  (i.documents.flatMap (·.2)).filter (·.name == name)

/-- The symbols that are found by a name are those that documents have of it. -/
def Agrees (i : Index) : Prop :=
  ∀ name symbols, i.names.lookup name = some symbols ↔ symbols ≠ [] ∧ symbols = i.named name

/-- Symbols are added in their order to those that are there already. -/
theorem lookup_foldl_addName (symbols : List Symbol) (names : List (String × List Symbol)) :
    (symbols.foldl addName names).lookup name =
      if (symbols.filter (·.name == name)).isEmpty then names.lookup name
      else some ((names.lookup name).getD [] ++ symbols.filter (·.name == name)) := by
  induction symbols generalizing names with
  | nil => simp
  | cons s symbols ih =>
    rw [List.foldl_cons, ih, addName]
    by_cases hs : s.name = name
    · subst hs
      simp [Assoc.lookup_insert_self]
    · rw [Assoc.lookup_insert_of_ne (Ne.symm hs)]
      simp [hs]

theorem agrees_rebuild (i : Index) : i.rebuild.Agrees := by
  intro name symbols
  have hnames : i.rebuild.names.lookup name =
      if (i.named name).isEmpty then none else some (i.named name) := by
    rw [rebuild, lookup_foldl_addName]
    rfl
  rw [hnames, show i.rebuild.named name = i.named name from rfl]
  by_cases hnone : i.named name = []
  · rw [hnone, if_pos List.isEmpty_nil]
    constructor
    · rintro ⟨⟩
    · exact fun ⟨hne, heq⟩ => absurd heq hne
  · rw [if_neg (by simpa using hnone), Option.some.injEq]
    constructor
    · rintro rfl
      exact ⟨hnone, rfl⟩
    · exact fun h => h.2.symm

/-- A document that is made known has no symbols yet, so no name is missing. -/
theorem Agrees.claim (h : i.Agrees) (uri : String) : (i.claim uri).Agrees := by
  rw [Index.claim]
  split
  · exact h
  · intro name symbols
    rw [h name symbols]
    simp [named]

theorem Agrees.lookup_eq (h : i.Agrees) (name : String) :
    i.lookup name = (i.named name).head? := by
  rw [lookup]
  cases hnames : i.names.lookup name with
  | some symbols => rw [((h name symbols).mp hnames).2, Option.bind_some]
  | none =>
    have hnone : i.named name = [] := by
      by_contra hne
      rw [(h name _).mpr ⟨hne, rfl⟩] at hnames
      cases hnames
    rw [hnone]
    rfl

/-! ### Documents and their symbols -/

/-- Every document is kept once, and its symbols are its own. -/
structure Sound (i : Index) : Prop where
  nodup : i.addresses.Nodup
  own : ∀ document, ∀ s ∈ i.symbols document, s.uri = document

theorem sound_empty : Index.empty.Sound := ⟨List.nodup_nil, by simp [Index.symbols, Index.empty]⟩

theorem Sound.mem_named_iff (h : i.Sound) {s : Symbol} :
    s ∈ i.named name ↔ s ∈ i.symbols s.uri ∧ s.name = name := by
  rw [named, List.mem_filter, List.mem_flatMap, beq_iff_eq]
  apply and_congr_left
  intro _
  constructor
  · rintro ⟨⟨document, symbols⟩, hmem, hs⟩
    have hl := Assoc.lookup_of_mem h.nodup hmem
    have hsymbols : s ∈ i.symbols document := by
      rw [symbols_of_lookup hl]
      exact hs
    rwa [h.own document s hsymbols]
  · intro hs
    cases hl : i.documents.lookup s.uri with
    | none =>
      rw [Index.symbols, hl] at hs
      cases hs
    | some symbols =>
      rw [symbols_of_lookup hl] at hs
      obtain ⟨before, after, hdocuments, -⟩ := List.lookup_eq_some_iff.mp hl
      exact ⟨(s.uri, symbols), by simp [hdocuments], hs⟩

end Index

/-- The symbols of a document that was looked through are its own. -/
theorem uri_of_mem_survey {document content : String} {known : List Symbol} {s : Symbol}
    (h : s ∈ (survey document content).symbols known) : s ∈ known ∨ s.uri = document := by
  unfold survey at h
  split at h
  · exact .inl h
  · split at h
    · exact .inl h
    · simp only [Survey.symbols, Contents.ofProgram, List.mem_filterMap] at h
      obtain ⟨stmt, -, hstmt⟩ := h
      unfold Contents.symbol? at hstmt
      split at hstmt
      · cases hstmt
        exact .inr rfl
      · cases hstmt

theorem Taken.sound {files : FileTree} {d : Desk} {uri text : String}
    {z : Except Refusal Unit × Desk} (h : Taken files d uri text z) (hd : d.index.Sound) :
    z.2.index.Sound := by
  refine ⟨h.nodup hd.nodup, fun document s hs => ?_⟩
  cases hknown : z.2.index.contains document with
  | false =>
    rw [Index.symbols_of_unknown hknown] at hs
    cases hs
  | true =>
    by_cases huri : document = uri
    · subst huri
      rw [Index.symbols_of_lookup h.self] at hs
      exact (uri_of_mem_survey hs).elim (hd.own document s) id
    · rcases h.new document hknown with heq | hbefore | ⟨content, -, hl⟩
      · exact absurd heq huri
      · obtain ⟨symbols, hl⟩ := Index.contains_iff.mp hbefore
        rw [Index.symbols_of_lookup (h.kept _ _ huri hl)] at hs
        exact hd.own document s (by rwa [Index.symbols_of_lookup hl])
      · rw [Index.symbols_of_lookup hl] at hs
        exact (uri_of_mem_survey hs).resolve_left List.not_mem_nil

/-! ### Changes -/

/-- What can be done to an index. The files may be others at each change. -/
inductive Change where
  | update (files : FileTree) (uri text : String)
  | clear

def Change.apply (i : Index) : Change → Except Refusal Unit × Index
  | .update files uri text => ((i.update files uri text).1, (i.update files uri text).2.index)
  | .clear => (.ok (), .empty)

/-- The index after some changes, whichever of them were stopped. -/
def Index.after (changes : List Change) : Index :=
  changes.foldl (fun i change => (change.apply i).2) .empty

/-- The last change has returned, or it was stopped at the first signs of its own text and the
changes before it are settled. -/
inductive Settled : List Change → Prop
  | empty : Settled []
  | returned {changes : List Change} {change : Change}
      (h : (change.apply (Index.after changes)).1 = .ok ()) : Settled (changes ++ [change])
  | unread {changes : List Change} {files : FileTree} {uri text : String}
      (before : Settled changes) (h : BreaksEarly text) :
      Settled (changes ++ [.update files uri text])

section

variable {changes : List Change} {change : Change} {i : Index}

theorem Index.after_append (changes : List Change) (change : Change) :
    Index.after (changes ++ [change]) = (change.apply (Index.after changes)).2 := by
  rw [Index.after, List.foldl_append]
  rfl

theorem Change.sound_apply (change : Change) (h : i.Sound) : (change.apply i).2.Sound := by
  cases change with
  | update files uri text => exact (taken_update files i uri text).sound h
  | clear => exact Index.sound_empty

theorem Index.sound_after (changes : List Change) : (Index.after changes).Sound := by
  induction changes using List.reverseRecOn with
  | nil => exact Index.sound_empty
  | append_singleton changes change ih =>
    rw [Index.after_append]
    exact change.sound_apply ih

theorem Change.agrees_of_returned (h : (change.apply i).1 = .ok ()) :
    (change.apply i).2.Agrees := by
  cases change with
  | update files uri text =>
    rw [Change.apply, ← (taken_update files i uri text).rebuilt h]
    exact Index.agrees_rebuild _
  | clear => exact Index.agrees_rebuild .empty

theorem Settled.agrees (h : Settled changes) : (Index.after changes).Agrees := by
  induction h with
  | empty => exact Index.agrees_rebuild .empty
  | returned h =>
    rw [Index.after_append]
    exact Change.agrees_of_returned h
  | @unread changes files uri text before h ih =>
    obtain ⟨e, hsurvey⟩ := h.exists_refuse uri
    rw [Index.after_append, Change.apply, update_of_refuse hsurvey]
    exact ih.claim uri

end

/-- After changes that are settled the symbols of a name are exactly those that documents have of
it, in their order. So a name is not found exactly if no document has it, and what is found is among
the symbols of its own document. -/
theorem views_agree_once_settled (changes : List Change) (h : Settled changes) :
    (∀ name symbols, (Index.after changes).names.lookup name = some symbols ↔
      symbols ≠ [] ∧ symbols = (Index.after changes).named name) ∧
    (∀ name, (Index.after changes).lookup name = none ↔
      ∀ document, ∀ s ∈ (Index.after changes).symbols document, s.name ≠ name) ∧
    ∀ name s, (Index.after changes).lookup name = some s →
      s.name = name ∧ s ∈ (Index.after changes).symbols s.uri := by
  have hagrees := h.agrees
  have hsound := Index.sound_after changes
  refine ⟨hagrees, fun name => ?_, fun name s hs => ?_⟩
  · rw [hagrees.lookup_eq, List.head?_eq_none_iff, List.eq_nil_iff_forall_not_mem]
    constructor
    · intro hnone document s hs hname
      refine hnone s (hsound.mem_named_iff.mpr ⟨?_, hname⟩)
      rwa [hsound.own document s hs]
    · intro hnone s hs
      obtain ⟨hmem, hname⟩ := hsound.mem_named_iff.mp hs
      exact hnone s.uri s hmem hname
  · rw [hagrees.lookup_eq] at hs
    obtain ⟨hmem, hname⟩ := hsound.mem_named_iff.mp (List.mem_of_head? hs)
    exact ⟨hname, hmem⟩

def treeOfBreak : FileTree :=
  ⟨[(["w"], .directory), (["w", "lib.meow"], .file (Text.Utf8.encode "1.2.3"))], ["w"]⟩

/-- A change that is stopped by a library after the symbols of its document were set. -/
def stoppedChange : Change := .update treeOfBreak uriOfCycle "set x = 1; include \"lib\";"

/-- A change that returns mends what the one before it left undone. -/
theorem views_agree_once_settled_after_a_stop :
    (stoppedChange.apply .empty).1.isOk = false ∧
    Settled [stoppedChange, .update treeOfBreak (Uri.ofPath "/w/b.meow") "set y = 2;"] ∧
    ∃ s, (Index.after [stoppedChange,
        .update treeOfBreak (Uri.ofPath "/w/b.meow") "set y = 2;"]).lookup "x" = some s ∧
      s.name = "x" := by
  have hreturned : ((Change.update treeOfBreak (Uri.ofPath "/w/b.meow") "set y = 2;").apply
      (Index.after [stoppedChange])).1.toOption = some () := by decide +kernel
  have hsettled := Settled.returned (eq_ok_of_toOption hreturned)
  obtain ⟨-, hnone, hsome⟩ := views_agree_once_settled _ hsettled
  refine ⟨by decide +kernel, hsettled, ?_⟩
  have hmem : ⟨"x", uriOfCycle, 0, 4, none⟩ ∈ (Index.after ([stoppedChange] ++
      [.update treeOfBreak (Uri.ofPath "/w/b.meow") "set y = 2;"])).symbols uriOfCycle := by
    decide +kernel
  obtain ⟨s, hs⟩ := Option.ne_none_iff_exists'.mp fun hl => (hnone "x").mp hl _ _ hmem rfl
  exact ⟨s, hs, (hsome "x" s hs).1⟩

/-- A change that is stopped on the way leaves a name that is not found. -/
theorem views_are_left_apart :
    ¬ ∀ (changes : List Change) (name : String) (symbols : List Symbol),
      (Index.after changes).names.lookup name = some symbols ↔
        symbols ≠ [] ∧ symbols = (Index.after changes).named name := by
  intro h
  have hnamed : (Index.after [stoppedChange]).named "x" = [⟨"x", uriOfCycle, 0, 4, none⟩] := by
    decide +kernel
  have hnames : (Index.after [stoppedChange]).names.lookup "x" = none := by decide +kernel
  have hfound := (h [stoppedChange] "x" [⟨"x", uriOfCycle, 0, 4, none⟩]).mpr
    ⟨List.cons_ne_nil _ _, hnamed.symm⟩
  rw [hnames] at hfound
  cases hfound

end MeowLang.Editor
