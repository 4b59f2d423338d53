import MeowLang.Proofs.Editor.Index

/-! What taking in a text does to an index, whichever way it ends. Documents that were known keep
their symbols, new ones were followed and have the symbols of their texts, and what stops the
indexing stands in a document that was followed. No bound beyond the number of files makes a
difference. -/
namespace MeowLang.Editor

/-- The symbols that a document has once it was looked through, if it had `known` before. -/
def Survey.symbols (known : List Symbol) : Survey → List Symbol
  | .read contents => contents.symbols
  | .keep _ | .refuse _ => known

namespace Index

variable {i : Index} {uri document : String} {symbols : List Symbol}

def addresses (i : Index) : List String := i.documents.map Prod.fst

theorem symbols_of_lookup (h : i.documents.lookup document = some symbols) :
    i.symbols document = symbols := by
  rw [Index.symbols, h, Option.getD_some]

theorem symbols_of_unknown (h : i.contains document = false) : i.symbols document = [] := by
  rw [contains, Assoc.contains, Option.isSome_eq_false_iff, Option.isNone_iff_eq_none] at h
  rw [Index.symbols, h, Option.getD_none]

theorem lookup_claim_self : (i.claim uri).documents.lookup uri = some (i.symbols uri) := by
  cases h : i.contains uri with
  | true =>
    obtain ⟨s, hs⟩ := contains_iff.mp h
    rw [claim, if_pos h, hs, symbols_of_lookup hs]
  | false =>
    rw [symbols_of_unknown h]
    rw [contains, Assoc.contains, Option.isSome_eq_false_iff, Option.isNone_iff_eq_none] at h
    simp [claim, contains, Assoc.contains, h, List.lookup_append]

theorem symbols_claim_self : (i.claim uri).symbols uri = i.symbols uri :=
  symbols_of_lookup lookup_claim_self

theorem contains_put :
    (i.put uri symbols).contains document = true ↔
      document = uri ∨ i.contains document = true := Assoc.contains_insert

theorem nodup_addresses_claim (h : i.addresses.Nodup) : (i.claim uri).addresses.Nodup := by
  rw [claim]
  split
  · exact h
  · rename_i hnew
    rw [contains, Assoc.contains_iff] at hnew
    simp only [addresses, List.map_append, List.map_cons, List.map_nil]
    exact h.append (List.nodup_singleton uri) (List.disjoint_singleton.mpr hnew)

theorem nodup_addresses_put (h : i.addresses.Nodup) : (i.put uri symbols).addresses.Nodup :=
  Assoc.nodup_keys_insert h uri symbols

end Index

/-! ### Steps and how they end -/

namespace Indexing

variable {α β : Type} {files : FileTree} {d : Desk} {uri text name : String}

theorem run_bind_error {p : Indexing α} {r : Refusal} {d' : Desk} (h : p.run d = (.error r, d'))
    (f : α → Indexing β) : (p >>= f).run d = (.error r, d') := by
  show (StateT.bind p.run fun r => ExceptT.bindCont f r) d = _
  simp only [StateT.bind, h]
  rfl

/-- What holds however a first step ends holds of two steps. -/
theorem run_bind_of {p : Indexing α} {f : α → Indexing β} {Q : Except Refusal β × Desk → Prop}
    (herror : ∀ r d', p.run d = (.error r, d') → Q (.error r, d'))
    (hok : ∀ a d', p.run d = (.ok a, d') → Q ((f a).run d')) : Q ((p >>= f).run d) := by
  rcases h : p.run d with ⟨r | a, d'⟩
  · rw [run_bind_error h]
    exact herror r d' h
  · rw [run_bind h]
    exact hok a d' h

theorem run_bind_congr {p q : Indexing α} (h : p.run d = q.run d) (f : α → Indexing β) :
    (p >>= f).run d = (q >>= f).run d := by
  show (StateT.bind p.run fun r => ExceptT.bindCont f r) d =
    (StateT.bind q.run fun r => ExceptT.bindCont f r) d
  simp only [StateT.bind, h]

theorem run_contents_refuse {e : MalformedNumber} (h : survey uri text = .refuse e) :
    (contents uri text).run d = (.error (.halted (.malformedNumber e)), d) := by
  simp only [contents, h]
  rfl

/-- A text is refused at once, or its symbols and loads go on, with what was known of the document
in the place of what cannot be read. -/
theorem run_contents_cases (d : Desk) (uri text : String) :
    (∃ e, survey uri text = .refuse e ∧
      (contents uri text).run d = (.error (.halted (.malformedNumber e)), d)) ∨
    ∃ found notes, (contents uri text).run d = (.ok found, ⟨d.index, notes⟩) ∧ d.notes <+: notes ∧
      found.symbols = (survey uri text).symbols (d.index.symbols uri) ∧
      found.includes = (survey uri text).includes := by
  cases h : survey uri text with
  | read found => exact .inr ⟨found, d.notes, run_contents h, List.prefix_rfl, rfl, rfl⟩
  | keep e =>
    refine .inr ⟨⟨d.index.symbols uri, []⟩, d.notes ++ [.kept uri e], ?_, List.prefix_append _ _,
      rfl, rfl⟩
    simp only [contents, h]
    rfl
  | refuse e => exact .inl ⟨e, rfl, run_contents_refuse h⟩

/-- A load is refused, brings nothing new, or leads to a file that is taken in. -/
theorem run_followOne_cases (files : FileTree) (d : Desk) (uri name : String) :
    (∃ r, target files uri name = .error r ∧
      ∀ bound, (followOne files bound uri name).run d = (.error r, d)) ∨
    (∃ notes, d.notes <+: notes ∧
      ∀ bound, (followOne files bound uri name).run d = (.ok (), ⟨d.index, notes⟩)) ∨
    ∃ path text, target files uri name = .ok path ∧ files.readText path = .ok text ∧
      d.index.contains (Uri.ofPath path) = false ∧
      ∀ bound, (followOne files bound uri name).run d =
        (update files bound (Uri.ofPath path) text).run d := by
  cases htarget : target files uri name with
  | error r =>
    refine .inl ⟨r, rfl, fun bound => ?_⟩
    rw [followOne, follow, htarget]
    rfl
  | ok path =>
    cases hknown : d.index.contains (Uri.ofPath path) with
    | true =>
      exact .inr (.inl ⟨d.notes, List.prefix_rfl, fun _ =>
        run_bind (run_follow_known htarget hknown)⟩)
    | false =>
      cases hread : files.readText path with
      | error reason =>
        exact .inr (.inl ⟨_, List.prefix_append _ _, fun _ =>
          run_bind (run_follow_unread htarget hknown hread)⟩)
      | ok text =>
        exact .inr (.inr ⟨path, text, rfl, hread, hknown, fun _ =>
          run_bind (run_follow_read htarget hknown hread)⟩)

end Indexing

/-! ### What is followed -/

/-- The documents that are read when a text is taken in: the document itself with this text, and
files that were not known before. -/
inductive Followed (files : FileTree) (i : Index) (uri text : String) : String → String → Prop
  | self : Followed files i uri text uri text
  | file {document content name path next : String}
      (origin : Followed files i uri text document content) (loads : Loads content name)
      (target : Indexing.target files document name = .ok path) (other : Uri.ofPath path ≠ uri)
      (new : i.contains (Uri.ofPath path) = false) (read : files.readText path = .ok next) :
      Followed files i uri text (Uri.ofPath path) next

/-- What there is in a document that stops the indexing: a malformed numeral before its reading has
begun, or a load that means no path. -/
inductive Obstacle (files : FileTree) (document content : String) : Refusal → Prop
  | numeral {e : MalformedNumber} (refused : survey document content = .refuse e) :
      Obstacle files document content (.halted (.malformedNumber e))
  | load {name : String} {r : Refusal} (loads : Loads content name)
      (target : Indexing.target files document name = .error r) : Obstacle files document content r

section

variable {files : FileTree} {i j : Index} {uri text document content : String}

theorem Followed.reached (h : Followed files i uri text document content) :
    Reached files uri text document content := by
  induction h with
  | self => exact .self
  | file _ loads target other _ read ih => exact ih.file loads target other read

/-- What is followed from a document that was followed was followed, if more is known by then. -/
theorem Followed.trans {middle between : String} (h : Followed files i uri text middle between)
    (hj : ∀ document, i.contains document = true → j.contains document = true)
    (huri : j.contains uri = true) (h' : Followed files j middle between document content) :
    Followed files i uri text document content := by
  induction h' with
  | self => exact h
  | @file _ _ _ path _ _ loads target _ new read ih =>
    have hnew : i.contains (Uri.ofPath path) = false := by
      rw [Bool.eq_false_iff] at new ⊢
      exact fun hknown => new (hj _ hknown)
    have hother : Uri.ofPath path ≠ uri := by
      rintro rfl
      rw [huri] at new
      cases new
    exact ih.file loads target hother hnew read

end

/-- Loads have been followed from a desk on: what was known is known unchanged, what is new was
followed and has the symbols of its text, and a refusal has its obstacle. -/
structure Spread (files : FileTree) (i : Index) (uri text : String) (d : Desk)
    (z : Except Refusal Unit × Desk) : Prop where
  kept : ∀ document symbols, d.index.documents.lookup document = some symbols →
    z.2.index.documents.lookup document = some symbols
  new : ∀ document, z.2.index.contains document = true → d.index.contains document = true ∨
    ∃ content, Followed files i uri text document content ∧
      z.2.index.documents.lookup document = some ((survey document content).symbols [])
  refused : ∀ r, z.1 = .error r → ∃ document content,
    Followed files i uri text document content ∧ Obstacle files document content r
  nodup : d.index.addresses.Nodup → z.2.index.addresses.Nodup
  notes : d.notes <+: z.2.notes

/-- A text has been taken for the contents of a document. -/
structure Taken (files : FileTree) (d : Desk) (uri text : String)
    (z : Except Refusal Unit × Desk) : Prop where
  self : z.2.index.documents.lookup uri = some ((survey uri text).symbols (d.index.symbols uri))
  kept : ∀ document symbols, document ≠ uri → d.index.documents.lookup document = some symbols →
    z.2.index.documents.lookup document = some symbols
  new : ∀ document, z.2.index.contains document = true →
    document = uri ∨ d.index.contains document = true ∨
      ∃ content, Followed files d.index uri text document content ∧
        z.2.index.documents.lookup document = some ((survey document content).symbols [])
  refused : ∀ r, z.1 = .error r → ∃ document content,
    Followed files d.index uri text document content ∧ Obstacle files document content r
  rebuilt : z.1 = .ok () → z.2.index.rebuild = z.2.index
  nodup : d.index.addresses.Nodup → z.2.index.addresses.Nodup
  notes : d.notes <+: z.2.notes

section

variable {files : FileTree} {i : Index} {uri text document content name : String} {d d' : Desk}
  {z : Except Refusal Unit × Desk}

theorem Spread.noted {notes : List Note} (h : d.notes <+: notes) :
    Spread files i uri text d (.ok (), ⟨d.index, notes⟩) :=
  ⟨fun _ _ hl => hl, fun _ hd => .inl hd, fun _ hr => (by cases hr), id, h⟩

theorem Spread.contains (h : Spread files i uri text d z)
    (hd : d.index.contains document = true) : z.2.index.contains document = true := by
  obtain ⟨s, hs⟩ := Index.contains_iff.mp hd
  exact Index.contains_iff.mpr ⟨s, h.kept _ _ hs⟩

theorem Spread.trans {answer : Except Refusal Unit} (h : Spread files i uri text d (answer, d'))
    (h' : Spread files i uri text d' z) : Spread files i uri text d z := by
  constructor
  · exact fun document symbols hl => h'.kept _ _ (h.kept _ _ hl)
  · intro document hd
    rcases h'.new document hd with hd | hnew
    · rcases h.new document hd with hd | ⟨content, hfollowed, hl⟩
      · exact .inl hd
      · exact .inr ⟨content, hfollowed, h'.kept _ _ hl⟩
    · exact .inr hnew
  · exact h'.refused
  · exact fun hd => h'.nodup (h.nodup hd)
  · exact h.notes.trans h'.notes

theorem Taken.contains (h : Taken files d uri text z) (hd : d.index.contains document = true) :
    z.2.index.contains document = true := by
  by_cases hne : document = uri
  · exact Index.contains_iff.mpr ⟨_, hne ▸ h.self⟩
  · obtain ⟨s, hs⟩ := Index.contains_iff.mp hd
    exact Index.contains_iff.mpr ⟨s, h.kept _ _ hne hs⟩

/-- Another document has the symbols that it had, or it was not known and was followed. -/
theorem Taken.symbols_cases (h : Taken files d uri text z) (hne : document ≠ uri) :
    z.2.index.symbols document = d.index.symbols document ∨
      d.index.symbols document = [] ∧ ∃ content, Followed files d.index uri text document content ∧
        z.2.index.symbols document = (survey document content).symbols [] := by
  cases hbefore : d.index.contains document with
  | true =>
    obtain ⟨symbols, hl⟩ := Index.contains_iff.mp hbefore
    exact .inl (by rw [Index.symbols_of_lookup (h.kept _ _ hne hl), Index.symbols_of_lookup hl])
  | false =>
    rw [Index.symbols_of_unknown hbefore]
    cases hafter : z.2.index.contains document with
    | false => exact .inl (Index.symbols_of_unknown hafter)
    | true =>
      rcases h.new document hafter with heq | hknown | ⟨content, hfollowed, hl⟩
      · exact absurd heq hne
      · rw [hbefore] at hknown
        cases hknown
      · exact .inr ⟨rfl, content, hfollowed, Index.symbols_of_lookup hl⟩

/-- Taking in a file that was led to and not known is a part of following loads. -/
theorem Taken.spread (h : Taken files d document content z)
    (hfollowed : Followed files i uri text document content)
    (hnew : d.index.contains document = false)
    (hi : ∀ other, i.contains other = true → d.index.contains other = true)
    (huri : d.index.contains uri = true) : Spread files i uri text d z := by
  constructor
  · intro other symbols hl
    refine h.kept _ _ ?_ hl
    rintro rfl
    rw [Index.contains_iff.mpr ⟨_, hl⟩] at hnew
    cases hnew
  · intro other hd
    rcases h.new other hd with rfl | hd | ⟨content, hother, hl⟩
    · have hself := h.self
      rw [Index.symbols_of_unknown hnew] at hself
      exact .inr ⟨_, hfollowed, hself⟩
    · exact .inl hd
    · exact .inr ⟨content, hfollowed.trans hi huri hother, hl⟩
  · intro r hr
    obtain ⟨other, content, hother, hobstacle⟩ := h.refused r hr
    exact ⟨other, content, hfollowed.trans hi huri hother, hobstacle⟩
  · exact h.nodup
  · exact h.notes

/-- Every text that is taken in with a bound is taken for the contents of its document. -/
def TakesAny (files : FileTree) (bound : Nat) : Prop :=
  ∀ (d : Desk) (uri text : String),
    Taken files d uri text ((Indexing.update files (bound + 1) uri text).run d)

/-- Following one load. Without a bound for it nothing is taken in, otherwise the file is. -/
theorem spread_followOne {bound : Nat} (ih : ∀ b, bound = b + 1 → TakesAny files b)
    (hfollowed : Followed files i uri text document content) (hloads : Loads content name)
    (hi : ∀ other, i.contains other = true → d.index.contains other = true)
    (huri : d.index.contains uri = true) :
    Spread files i uri text d ((Indexing.followOne files bound document name).run d) := by
  rcases Indexing.run_followOne_cases files d document name with
    ⟨r, htarget, hrun⟩ | ⟨notes, hnotes, hrun⟩ | ⟨path, next, htarget, hread, hnew, hrun⟩
  · rw [hrun]
    refine ⟨fun _ _ hl => hl, fun _ hd => .inl hd, ?_, id, List.prefix_rfl⟩
    rintro _ ⟨⟩
    exact ⟨_, _, hfollowed, .load hloads htarget⟩
  · rw [hrun]
    exact .noted hnotes
  · rw [hrun]
    cases bound with
    | zero => exact .noted List.prefix_rfl
    | succ b =>
      have hunknown : i.contains (Uri.ofPath path) = false := by
        rw [Bool.eq_false_iff] at hnew ⊢
        exact fun hknown => hnew (hi _ hknown)
      have hother : Uri.ofPath path ≠ uri := by
        rintro rfl
        rw [huri] at hnew
        cases hnew
      exact (ih b rfl d _ _).spread (hfollowed.file hloads htarget hother hunknown hread) hnew hi
        huri

/-- Following loads one after the other, up to the first that is refused. -/
theorem spread_followAll {bound : Nat} (ih : ∀ b, bound = b + 1 → TakesAny files b)
    (hfollowed : Followed files i uri text document content) {names : List String}
    (hnames : ∀ name ∈ names, Loads content name)
    (hi : ∀ other, i.contains other = true → d.index.contains other = true)
    (huri : d.index.contains uri = true) :
    Spread files i uri text d ((names.forM (Indexing.followOne files bound document)).run d) := by
  induction names generalizing d with
  | nil => exact .noted List.prefix_rfl
  | cons name names ihnames =>
    rw [List.forall_mem_cons] at hnames
    have hone := spread_followOne ih hfollowed hnames.1 hi huri
    rw [List.forM]
    refine Indexing.run_bind_of (fun r d' hrun => hrun ▸ hone) fun _ d' hrun => ?_
    rw [hrun] at hone
    exact hone.trans (ihnames hnames.2 (fun other hd => hone.contains (hi other hd))
      (hone.contains huri))

/-- The step: a document is made known, its symbols are set, its loads are followed, and the names
are gathered anew unless a load is refused. -/
theorem takesAny_of_pred {bound : Nat} (ih : ∀ b, bound = b + 1 → TakesAny files b) :
    TakesAny files bound := by
  intro d uri text
  rw [Indexing.update_succ, Indexing.run_bind (Indexing.run_change _)]
  rcases Indexing.run_contents_cases ⟨d.index.claim uri, d.notes⟩ uri text with
    ⟨e, hsurvey, hrun⟩ | ⟨found, notes, hrun, hnotes, hsymbols, hincludes⟩
  · refine Indexing.run_bind_of (fun r d' hrun' => ?_) fun _ _ hrun' => ?_
    · rw [hrun] at hrun'
      cases hrun'
      refine ⟨?_, ?_, ?_, ?_, fun hr => (by cases hr), Index.nodup_addresses_claim, List.prefix_rfl⟩
      · rw [hsurvey]
        exact Index.lookup_claim_self
      · intro document symbols hne hl
        exact (Index.lookup_claim_of_ne hne).trans hl
      · intro document hd
        exact (Index.contains_claim.mp hd).imp_right .inl
      · rintro _ ⟨⟩
        exact ⟨_, _, .self, .numeral hsurvey⟩
    · rw [hrun] at hrun'
      cases hrun'
  · rw [Indexing.run_bind hrun, Indexing.run_bind (Indexing.run_change _)]
    simp only at hnotes hsymbols ⊢
    rw [Index.symbols_claim_self] at hsymbols
    generalize hput : (d.index.claim uri).put uri found.symbols = j
    have hself : j.documents.lookup uri =
        some ((survey uri text).symbols (d.index.symbols uri)) := by
      rw [← hput, Index.lookup_put_self, hsymbols]
    have hother {document : String} (hne : document ≠ uri) :
        j.documents.lookup document = d.index.documents.lookup document := by
      rw [← hput, Index.lookup_put_of_ne hne, Index.lookup_claim_of_ne hne]
    have hcontains (document : String) :
        j.contains document = true ↔ document = uri ∨ d.index.contains document = true := by
      rw [← hput, Index.contains_put, Index.contains_claim, or_self_left]
    have hloads : ∀ name ∈ found.includes, Loads text name := fun name hname =>
      (mem_includes_iff uri text name).mp (hincludes ▸ hname)
    have hfollowed : Followed files d.index uri text uri text := .self
    have hspread := spread_followAll (d := ⟨j, notes⟩) ih hfollowed hloads
      (fun other hd => (hcontains other).mpr (.inr hd)) ((hcontains uri).mpr (.inl rfl))
    -- the names are gathered from the documents, which stay as they are
    have hdone : ∀ z : Except Refusal Unit × Desk, Spread files d.index uri text ⟨j, notes⟩ z →
        (z.1 = .ok () → z.2.index.rebuild = z.2.index) → Taken files d uri text z := by
      intro z h hrebuilt
      refine ⟨h.kept _ _ hself, fun document symbols hne hl => h.kept _ _ ((hother hne).trans hl),
        fun document hd => ?_, h.refused, hrebuilt, fun hd => h.nodup ?_, hnotes.trans h.notes⟩
      · rcases h.new document hd with hd | hnew
        · exact ((hcontains document).mp hd).imp_right .inl
        · exact .inr (.inr hnew)
      · rw [← hput]
        exact Index.nodup_addresses_put (Index.nodup_addresses_claim hd)
    refine Indexing.run_bind_of (fun r d' hrun' => ?_) fun _ d' hrun' => ?_
    · rw [hrun'] at hspread
      exact hdone _ hspread fun hr => by cases hr
    · rw [hrun'] at hspread
      rw [Indexing.run_change]
      exact hdone _ ⟨hspread.kept, hspread.new, fun _ hr => (by cases hr), hspread.nodup,
        hspread.notes⟩ fun _ => rfl

theorem takesAny (files : FileTree) (bound : Nat) : TakesAny files bound := by
  induction bound with
  | zero => exact takesAny_of_pred fun _ hb => by cases hb
  | succ bound ih =>
    apply takesAny_of_pred
    rintro _ ⟨⟩
    exact ih

/-- What taking in a text comes to, whatever the index knew. -/
theorem taken_update (files : FileTree) (i : Index) (uri text : String) :
    Taken files ⟨i, []⟩ uri text (Index.update files i uri text) := takesAny files _ _ _ _

end

/-! ### The bound -/

section

variable {files : FileTree} {d : Desk} {uri text document name : String}

theorem contains_followOne (bound : Nat) (hd : d.index.contains document = true) :
    ((Indexing.followOne files bound uri name).run d).2.index.contains document = true := by
  rcases Indexing.run_followOne_cases files d uri name with
    ⟨r, -, hrun⟩ | ⟨notes, -, hrun⟩ | ⟨path, next, -, -, -, hrun⟩
  · rwa [hrun]
  · rwa [hrun]
  · rw [hrun]
    cases bound with
    | zero => exact hd
    | succ bound => exact (takesAny files bound d _ _).contains hd

/-- Bounds above `n` lead to the same end while at most `n` files are unknown. -/
def BoundIrrelevant (files : FileTree) (n : Nat) : Prop :=
  ∀ (d : Desk) (uri text : String), (unknown files (d.index.claim uri)).card ≤ n →
    ∀ bound bound', n < bound → n < bound' →
      (Indexing.update files bound uri text).run d = (Indexing.update files bound' uri text).run d

theorem followAll_eq {n bound bound' : Nat} (ih : ∀ m < n, BoundIrrelevant files m)
    (hn : n ≤ bound) (hn' : n ≤ bound') (names : List String)
    (hd : (unknown files d.index).card ≤ n) :
    (names.forM (Indexing.followOne files bound document)).run d =
      (names.forM (Indexing.followOne files bound' document)).run d := by
  induction names generalizing d with
  | nil => rfl
  | cons name names ihnames =>
    have hone : (Indexing.followOne files bound document name).run d =
        (Indexing.followOne files bound' document name).run d := by
      rcases Indexing.run_followOne_cases files d document name with
        ⟨r, -, hrun⟩ | ⟨notes, -, hrun⟩ | ⟨path, next, htarget, hread, hnew, hrun⟩
      · rw [hrun, hrun]
      · rw [hrun, hrun]
      · have hfewer := card_unknown_claim htarget hread hnew
        rw [hrun, hrun]
        exact ih _ (by omega) d _ _ le_rfl bound bound' (by omega) (by omega)
    rw [List.forM, List.forM, Indexing.run_bind_congr hone]
    rcases hrun : (Indexing.followOne files bound' document name).run d with ⟨r | _, d'⟩
    · rw [Indexing.run_bind_error hrun, Indexing.run_bind_error hrun]
    · rw [Indexing.run_bind hrun, Indexing.run_bind hrun]
      apply ihnames
      refine (Finset.card_le_card (unknown_subset fun other hother => ?_)).trans hd
      have hcontains :
          ((Indexing.followOne files bound' document name).run d).2.index.contains other = true :=
        contains_followOne bound' hother
      rwa [hrun] at hcontains

theorem boundIrrelevant_of_lt {n : Nat} (ih : ∀ m < n, BoundIrrelevant files m) :
    BoundIrrelevant files n := by
  intro d uri text hd bound bound' hn hn'
  obtain ⟨bound, rfl⟩ : ∃ b, bound = b + 1 := ⟨bound - 1, by omega⟩
  obtain ⟨bound', rfl⟩ : ∃ b, bound' = b + 1 := ⟨bound' - 1, by omega⟩
  rw [Indexing.update_succ, Indexing.update_succ, Indexing.run_bind (Indexing.run_change _),
    Indexing.run_bind (Indexing.run_change _)]
  rcases Indexing.run_contents_cases ⟨d.index.claim uri, d.notes⟩ uri text with
    ⟨e, -, hrun⟩ | ⟨found, notes, hrun, -⟩
  · rw [Indexing.run_bind_error hrun, Indexing.run_bind_error hrun]
  · rw [Indexing.run_bind hrun, Indexing.run_bind hrun, Indexing.run_bind (Indexing.run_change _),
      Indexing.run_bind (Indexing.run_change _)]
    apply Indexing.run_bind_congr
    apply followAll_eq ih (by omega) (by omega)
    exact (Finset.card_le_card (unknown_subset fun _ hother =>
      Index.contains_put.mpr (.inr hother))).trans hd

/-- Every bound beyond the number of files leads to the same end. -/
theorem update_of_ampleDepth_le {bound : Nat} (h : Indexing.ampleDepth files ≤ bound) (i : Index)
    (uri text : String) :
    (Indexing.update files bound uri text).run ⟨i, []⟩ = Index.update files i uri text := by
  have hall (n : Nat) : BoundIrrelevant files n := by
    induction n using Nat.strong_induction_on with
    | _ n ih => exact boundIrrelevant_of_lt ih
  exact hall files.nodes.length _ _ _ (card_unknown_le _ _) _ _ h (Nat.lt_succ_self _)

end

end MeowLang.Editor
