import MeowLang.Proofs.Program.Ahead

/-! A calculus of readings. A reading goes through a given run of terminals if it begins on the
first of them, ends on the last and complains about nothing; its steps are put together one by
one, each beginning on the sign that the one before it has ended on. -/
namespace MeowLang

/-- These signs, and no numeral that fails, are still to be read; these errors are recorded. -/
structure Reader.Shows (r : Reader) (ss : List Sign) (errors : List SyntaxError) : Prop where
  signs_eq : r.signs = ss
  fault_eq : r.fault = none
  errors_eq : r.errors = errors

namespace Parse

variable {α β : Type}

/-- Begun on the first sign of `ts`, before the terminal `next`, the reading ends on the last
one without a complaint, with a result that `Q` holds of. -/
def Reads (ts : List Terminal) (next : Terminal) (Q : α → Prop) (p : Parse α) : Prop :=
  ∀ (r : Reader) (ss rest : List Sign) (errors : List SyntaxError), r.Shows (ss ++ rest) errors →
    ss.map Sign.terminal = ts → Sign.first rest = next →
    ∃ a r' last, p r = (.got a, r') ∧ r'.Shows (last :: rest) errors ∧ Q a

/-- The same, begun on the sign before the first one. -/
def GoesOn (ts : List Terminal) (next : Terminal) (Q : α → Prop) (p : Parse α) : Prop :=
  ∀ (r : Reader) (s : Sign) (ss rest : List Sign) (errors : List SyntaxError),
    r.Shows (s :: (ss ++ rest)) errors →
    ss.map Sign.terminal = ts → Sign.first rest = next →
    ∃ a r' last, p r = (.got a, r') ∧ r'.Shows (last :: rest) errors ∧ Q a

variable {t next : Terminal} {ts us : List Terminal} {Q : α → Prop} {R : β → Prop}
  {p : Parse α} {f : α → Parse β} {r : Reader} {ss rest : List Sign} {errors : List SyntaxError}

theorem first_append (hs : ss.map Sign.terminal = ts) (hr : Sign.first rest = next) :
    Sign.first (ss ++ rest) = ts.headD next := by
  subst hs
  cases ss with
  | nil => exact hr
  | cons s ss => rfl

theorem advance_of_shows {s : Sign} (h : r.Shows (s :: ss) errors) :
    ∃ r', advance r = (.got (), r') ∧ r'.Shows ss errors := by
  obtain ⟨r', ha, hs, hf, he⟩ := r.advance_of_fault_none h.fault_eq
  refine ⟨r', by rw [advance, ha], ?_, hf, he.trans h.errors_eq⟩
  rw [hs, h.signs_eq, List.tail_cons]

theorem GoesOn.reads (h : GoesOn ts next Q p) (t : Terminal) : Reads (t :: ts) next Q p := by
  intro r ss rest errors hr hs hn
  cases ss with
  | nil => cases hs
  | cons s ss => exact h r s ss rest errors hr (List.cons.inj hs).2 hn

/-! ### Sequences -/

theorem goesOn_pure {a : α} (h : Q a) : GoesOn [] next Q (pure a) := by
  intro r s ss rest errors hr hs _
  cases List.map_eq_nil_iff.mp hs
  exact ⟨a, r, s, rfl, hr, h⟩

theorem reads_bind (hp : Reads ts (us.headD next) Q p)
    (hf : ∀ a, Q a → GoesOn us next R (f a)) : Reads (ts ++ us) next R (p >>= f) := by
  intro r ss rest errors hr hs hn
  obtain ⟨ss₁, ss₂, rfl, hs₁, hs₂⟩ := List.map_eq_append_iff.mp hs
  rw [List.append_assoc] at hr
  obtain ⟨a, r₁, last, hpa, hr₁, ha⟩ :=
    hp r ss₁ (ss₂ ++ rest) errors hr hs₁ (first_append hs₂ hn)
  obtain ⟨b, r₂, last', hfb, hr₂, hb⟩ := hf a ha r₁ last ss₂ rest errors hr₁ hs₂ hn
  exact ⟨b, r₂, last', (bind_of_got hpa).trans hfb, hr₂, hb⟩

theorem goesOn_bind (hp : GoesOn ts (us.headD next) Q p)
    (hf : ∀ a, Q a → GoesOn us next R (f a)) : GoesOn (ts ++ us) next R (p >>= f) := by
  intro r s ss rest errors hr hs hn
  obtain ⟨ss₁, ss₂, rfl, hs₁, hs₂⟩ := List.map_eq_append_iff.mp hs
  rw [List.append_assoc] at hr
  obtain ⟨a, r₁, last, hpa, hr₁, ha⟩ :=
    hp r s ss₁ (ss₂ ++ rest) errors hr hs₁ (first_append hs₂ hn)
  obtain ⟨b, r₂, last', hfb, hr₂, hb⟩ := hf a ha r₁ last ss₂ rest errors hr₁ hs₂ hn
  exact ⟨b, r₂, last', (bind_of_got hpa).trans hfb, hr₂, hb⟩

/-- A last step that takes no sign. -/
theorem reads_bind_nil (hp : Reads ts next Q p) (hf : ∀ a, Q a → GoesOn [] next R (f a)) :
    Reads ts next R (p >>= f) := by
  have h : Reads (ts ++ []) next R (p >>= f) := reads_bind hp hf
  rwa [List.append_nil] at h

theorem reads_map {g : α → β} (hp : Reads ts next Q p) (hg : ∀ a, Q a → R (g a)) :
    Reads ts next R (p >>= fun a => pure (g a)) :=
  reads_bind_nil hp fun a ha => goesOn_pure (hg a ha)

theorem goesOn_map {g : α → β} (hp : GoesOn ts next Q p) (hg : ∀ a, Q a → R (g a)) :
    GoesOn ts next R (p >>= fun a => pure (g a)) := by
  have h : GoesOn (ts ++ []) next R (p >>= fun a => pure (g a)) :=
    goesOn_bind hp fun a ha => goesOn_pure (hg a ha)
  rwa [List.append_nil] at h

/-! ### Steps -/

theorem goesOn_advance {p : Parse β} (h : Reads ts next R p) :
    GoesOn ts next R (advance >>= fun _ => p) := by
  intro r s ss rest errors hr hs hn
  obtain ⟨r₁, ha, hr₁⟩ := advance_of_shows hr
  obtain ⟨b, r₂, last, hpb, hr₂, hb⟩ := h r₁ ss rest errors hr₁ hs hn
  exact ⟨b, r₂, last, (bind_of_got ha).trans hpb, hr₂, hb⟩

theorem goesOn_peek {f : Terminal → Parse β} (h : GoesOn ts next R (f (ts.headD next))) :
    GoesOn ts next R (peek >>= f) := by
  intro r s ss rest errors hr hs hn
  have hpeek : r.peek = ts.headD next := by
    rw [r.peek_eq, hr.signs_eq, List.tail_cons, first_append hs hn]
  obtain ⟨b, r', last, hpb, hb⟩ := h r s ss rest errors hr hs hn
  rw [← hpeek] at hpb
  exact ⟨b, r', last, hpb, hb⟩

theorem goesOn_expect {k : Kind} {p : Parse β} (hk : t.kind = k) (h : Reads (t :: ts) next R p) :
    GoesOn (t :: ts) next R (expect k >>= fun _ => p) := by
  rw [expect, bind_assoc]
  refine goesOn_peek ?_
  rw [List.headD_cons, if_pos hk]
  exact goesOn_advance h

theorem reads_current {f : Terminal → Parse β} (h : Reads ts next R (f (ts.headD next))) :
    Reads ts next R (current >>= f) := by
  intro r ss rest errors hr hs hn
  have hcurrent : r.current = ts.headD next := by
    rw [r.current_eq, hr.signs_eq, first_append hs hn]
  obtain ⟨b, r', last, hpb, hb⟩ := h r ss rest errors hr hs hn
  rw [← hcurrent] at hpb
  exact ⟨b, r', last, hpb, hb⟩

theorem reads_line {f : Int → Parse β} (h : ∀ l, Reads ts next R (f l)) :
    Reads ts next R (line >>= f) :=
  fun r ss rest errors hr hs hn => h _ r ss rest errors hr hs hn

theorem goesOn_expectName {x : String} {f : String → Parse β} (h : GoesOn ts next R (f x)) :
    GoesOn (.ident x :: ts) next R (expectName >>= f) := by
  rw [expectName, bind_assoc]
  refine goesOn_expect rfl ?_
  rw [bind_assoc]
  exact reads_current (h.reads _)

theorem goesOn_expectText {b : String} {f : String → Parse β} (h : GoesOn ts next R (f b)) :
    GoesOn (.string b :: ts) next R (expectText >>= f) := by
  rw [expectText, bind_assoc]
  refine goesOn_expect rfl ?_
  rw [bind_assoc]
  exact reads_current (h.reads _)

theorem goesOn_skipSemicolon {p : Parse β} (h : GoesOn ts next R p) :
    GoesOn (.mark .semicolon :: ts) next R (skipSemicolon >>= fun _ => p) := by
  rw [skipSemicolon, bind_assoc]
  refine goesOn_peek ?_
  rw [List.headD_cons, if_pos rfl]
  exact goesOn_advance (h.reads _)

theorem reads_attempt (h : Reads ts next Q p) :
    Reads ts next (fun o => ∃ a, o = some a ∧ Q a) (attempt p) := by
  intro r ss rest errors hr hs hn
  obtain ⟨a, r', last, hpa, hr', ha⟩ := h r ss rest errors hr hs hn
  refine ⟨some a, r', last, ?_, hr', a, rfl, ha⟩
  simp only [attempt, hpa]

end Parse

end MeowLang
