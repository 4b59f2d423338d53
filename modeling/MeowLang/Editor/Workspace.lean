import MeowLang.Editor.Index

/-! What a service takes from the library that speaks the protocol of editors: the documents that
are open, their texts and the words in them. The service is the same for every such library; the
laws say what it can rely on. -/
namespace MeowLang.Editor

variable {σ ε : Type}

/-- The documents of an editor. What is held of them is a `σ`, and an editor sends a change of a
text as an `ε`. -/
structure Workspace (σ ε : Type) where
  /-- What there is against an address, if no document can be opened at it. -/
  objection? : String → Option Refusal
  isOpen : σ → String → Bool
  /-- Opens a document with a text. -/
  put : σ → String → String → σ
  /-- Changes the text of a document. -/
  edit : σ → String → ε → Except Refusal σ
  /-- The text that a change makes of another. -/
  revise : String → ε → String
  /-- The text of a document; one that is not open is read from its file. -/
  source : FileTree → σ → String → Except Refusal String
  /-- The word at a place in a document; it is empty where no word stands. -/
  wordAt : FileTree → σ → String → Caret → Except Refusal String

/-- Documents that are open can be changed, they have the texts that the editor gives them, and
they do not get in the way of each other. -/
structure Workspace.Lawful (W : Workspace σ ε) : Prop where
  isOpen_put : ∀ held uri text document,
    W.isOpen (W.put held uri text) document = (document == uri || W.isOpen held document)
  source_put : ∀ files held uri text, W.source files (W.put held uri text) uri = .ok text
  source_put_of_ne : ∀ files held uri text document, document ≠ uri →
    W.isOpen held document = true →
    W.source files (W.put held uri text) document = W.source files held document
  edit_of_isOpen : ∀ held uri change, W.isOpen held uri = true →
    ∃ held', W.edit held uri change = .ok held'
  isOpen_edit : ∀ held uri change held' document, W.edit held uri change = .ok held' →
    W.isOpen held' document = W.isOpen held document
  source_edit : ∀ files held uri change held' text, W.edit held uri change = .ok held' →
    W.source files held uri = .ok text → W.source files held' uri = .ok (W.revise text change)
  source_edit_of_ne : ∀ files held uri change held' document, W.edit held uri change = .ok held' →
    document ≠ uri → W.isOpen held document = true →
    W.source files held' document = W.source files held document

/-! ### Texts by their addresses -/

/-- Documents by their addresses, each with its text; `revise` says what a change makes of it. -/
def Workspace.ofTexts (revise : String → ε → String) : Workspace (List (String × String)) ε where
  objection? uri :=
    match Uri.location uri with
    | .error fault => some (.badAddress fault)
    | .ok _ => none
  isOpen texts uri := Assoc.contains uri texts
  put texts uri text := Assoc.insert uri text texts
  edit texts uri change :=
    match texts.lookup uri with
    | some text => .ok (Assoc.insert uri (revise text change) texts)
    | none => .error (.notOpen uri)
  revise := revise
  source files texts uri := sourceOf files texts uri
  wordAt files texts uri caret := (sourceOf files texts uri).map caret.word
where
  sourceOf (files : FileTree) (texts : List (String × String)) (uri : String) :
      Except Refusal String :=
    match texts.lookup uri with
    | some text => .ok text
    | none => do
      let path ← (Uri.location uri).mapError .badAddress
      (files.readText path).mapError .halted

end MeowLang.Editor
