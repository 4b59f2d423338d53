import MeowLang.Proofs.Program.Progress
import MeowLang.Proofs.Token.Lines

/-! What a reading depends on. A reading looks at the current sign and at the one behind it, so it
gives the same wherever the signs up to the one behind its last are the same, and signs further
down give the same program further down. -/
namespace MeowLang

mutual

def Expr.shift (k : Nat) : Expr → Expr
  | .ident x line => .ident x (line + k)
  | .number value line => .number value (line + k)
  | .string body line => .string body (line + k)
  | .bool value line => .bool value (line + k)
  | .array es line => .array (shiftExprs k es) (line + k)
  | .object entries line => .object (shiftEntries k entries) (line + k)
  | .prefixed op e line => .prefixed op (e.shift k) (line + k)
  | .between op l r line => .between op (l.shift k) (r.shift k) (line + k)
  | .cond test yes no line =>
    .cond (test.shift k) (shiftStmts k yes) (shiftBranch k no) (line + k)
  | .function params body line => .function params (shiftStmts k body) (line + k)
  | .call callee args line => .call (callee.shift k) (shiftExprs k args) (line + k)
  | .index c i line => .index (c.shift k) (i.shift k) (line + k)
  | .kindOf e line => .kindOf (e.shift k) (line + k)
  | .loop body line => .loop (shiftStmts k body) (line + k)
  | .foreign node => .foreign node
termination_by structural e => e

def Stmt.shift (k : Nat) : Stmt → Stmt
  | .bind x e line => .bind x (e.shift k) (line + k)
  | .rebind x e line => .rebind x (e.shift k) (line + k)
  | .giveBack e line => .giveBack (shiftResult k e) (line + k)
  | .expr e line => .expr (e.shift k) (line + k)
  | .load name line => .load name (line + k)
  | .leave line => .leave (line + k)
  | .again line => .again (line + k)
  | .foreign node => .foreign node
termination_by structural s => s

def shiftExprs (k : Nat) : List Expr → List Expr
  | [] => []
  | e :: rest => e.shift k :: shiftExprs k rest
termination_by structural es => es

def shiftEntries (k : Nat) : List (Expr × Expr) → List (Expr × Expr)
  | [] => []
  | (key, value) :: rest => (key.shift k, value.shift k) :: shiftEntries k rest
termination_by structural es => es

def shiftStmts (k : Nat) : List Stmt → List Stmt
  | [] => []
  | s :: rest => s.shift k :: shiftStmts k rest
termination_by structural ss => ss

def shiftBranch (k : Nat) : Option (List Stmt) → Option (List Stmt)
  | none => none
  | some body => some (shiftStmts k body)
termination_by structural b => b

def shiftResult (k : Nat) : Option Expr → Option Expr
  | none => none
  | some e => some (e.shift k)
termination_by structural e => e

end

theorem shiftStmts_eq_map (k : Nat) (ss : List Stmt) : shiftStmts k ss = ss.map (Stmt.shift k) := by
  induction ss with
  | nil => rfl
  | cons s ss ih => rw [shiftStmts, ih, List.map_cons]

theorem shiftStmts_append (k : Nat) (ss ts : List Stmt) :
    shiftStmts k (ss ++ ts) = shiftStmts k ss ++ shiftStmts k ts := by
  simp only [shiftStmts_eq_map, List.map_append]

mutual

@[simp] theorem Expr.shift_zero (e : Expr) : e.shift 0 = e := by
  cases e with
  | ident x line | number x line | string x line | bool x line => simp [Expr.shift]
  | array es line => simp [Expr.shift, shiftExprs_zero es]
  | object entries line => simp [Expr.shift, shiftEntries_zero entries]
  | prefixed op e line => simp [Expr.shift, Expr.shift_zero e]
  | between op l r line => simp [Expr.shift, Expr.shift_zero l, Expr.shift_zero r]
  | cond test yes no line =>
    simp [Expr.shift, Expr.shift_zero test, shiftStmts_zero yes, shiftBranch_zero no]
  | function params body line => simp [Expr.shift, shiftStmts_zero body]
  | call callee args line => simp [Expr.shift, Expr.shift_zero callee, shiftExprs_zero args]
  | index c i line => simp [Expr.shift, Expr.shift_zero c, Expr.shift_zero i]
  | kindOf e line => simp [Expr.shift, Expr.shift_zero e]
  | loop body line => simp [Expr.shift, shiftStmts_zero body]
  | foreign node => rfl
termination_by structural e

@[simp] theorem Stmt.shift_zero (s : Stmt) : s.shift 0 = s := by
  cases s with
  | bind x e line => simp [Stmt.shift, Expr.shift_zero e]
  | rebind x e line => simp [Stmt.shift, Expr.shift_zero e]
  | giveBack e line => simp [Stmt.shift, shiftResult_zero e]
  | expr e line => simp [Stmt.shift, Expr.shift_zero e]
  | load x line | leave line | again line => simp [Stmt.shift]
  | foreign node => rfl
termination_by structural s

theorem shiftExprs_zero (es : List Expr) : shiftExprs 0 es = es := by
  cases es with
  | nil => rfl
  | cons e rest => rw [shiftExprs, Expr.shift_zero e, shiftExprs_zero rest]
termination_by structural es

theorem shiftEntries_zero (es : List (Expr × Expr)) : shiftEntries 0 es = es := by
  cases es with
  | nil => rfl
  | cons entry rest =>
    obtain ⟨key, value⟩ := entry
    rw [shiftEntries, Expr.shift_zero key, Expr.shift_zero value, shiftEntries_zero rest]
termination_by structural es

theorem shiftStmts_zero (ss : List Stmt) : shiftStmts 0 ss = ss := by
  cases ss with
  | nil => rfl
  | cons s rest => rw [shiftStmts, Stmt.shift_zero s, shiftStmts_zero rest]
termination_by structural ss

theorem shiftBranch_zero (b : Option (List Stmt)) : shiftBranch 0 b = b := by
  cases b with
  | none => rfl
  | some body => rw [shiftBranch, shiftStmts_zero body]
termination_by structural b

theorem shiftResult_zero (e : Option Expr) : shiftResult 0 e = e := by
  cases e with
  | none => rfl
  | some e => rw [shiftResult, Expr.shift_zero e]
termination_by structural e

end

/-! ### Two readers side by side -/

/-- A sign of this class stands neither behind a statement nor at the end of the text. -/
def Kind.isInner : Kind → Bool
  | .eof | .mark .semicolon => false
  | _ => true

namespace Reader

/-- The signs of `r'` are those of `r`, further down, and `more` behind them; no numeral stops
either of them, and the same was complained of. -/
structure Joined (k : Nat) (more : List Sign) (r r' : Reader) : Prop where
  signs_eq : r'.signs = r.signs.map (Sign.shift k) ++ more
  fault_eq : r.fault = none
  fault_eq' : r'.fault = none
  errors_eq : r'.errors = r.errors

/-- What stands behind the signs cannot be seen yet. -/
def Hides (more : List Sign) (r : Reader) : Prop := more = [] ∨ 2 ≤ r.count

/-- Reading is on a sign that is no semicolon. -/
def Inside (r : Reader) : Prop := r.current.kind.isInner = true

variable {k : Nat} {more : List Sign} {r r' s : Reader}

theorem inside_of_kind {kind : Kind} (h : r.current.kind = kind) (hk : kind.isInner = true) :
    r.Inside := by
  rwa [Inside, h]

theorem inside_of_current {t : Terminal} (h : r.current = t) (ht : t.kind.isInner = true) :
    r.Inside := by
  rwa [Inside, h]

theorem Inside.ne_eof (h : r.Inside) : r.current ≠ .eof := by
  intro hc
  rw [Inside, hc] at h
  cases h

theorem Inside.ne_semicolon (h : r.Inside) : r.current ≠ .mark .semicolon := by
  intro hc
  rw [Inside, hc] at h
  cases h

theorem Hides.mono (h : s.Hides more) (hle : s.count ≤ r.count) : r.Hides more :=
  h.imp id fun htwo => Nat.le_trans htwo hle

theorem first_joined (k : Nat) {ss : List Sign} (h : more = [] ∨ 1 ≤ ss.length) :
    Sign.first (ss.map (Sign.shift k) ++ more) = Sign.first ss := by
  cases ss with
  | nil =>
    rcases h with rfl | h
    · rfl
    · cases h
  | cons s ss => rfl

theorem tail_joined (k : Nat) {ss : List Sign} (h : more = [] ∨ 1 ≤ ss.length) :
    (ss.map (Sign.shift k) ++ more).tail = ss.tail.map (Sign.shift k) ++ more := by
  cases ss with
  | nil =>
    rcases h with rfl | h
    · rfl
    · cases h
  | cons s ss => rfl

namespace Joined

theorem current_eq (h : Joined k more r r') (hm : more = [] ∨ 1 ≤ r.count) :
    r'.current = r.current := by
  rw [r'.current_eq, r.current_eq, h.signs_eq]
  exact first_joined k hm

theorem peek_eq (h : Joined k more r r') (hm : r.Hides more) : r'.peek = r.peek := by
  rw [r'.peek_eq, r.peek_eq, h.signs_eq,
    tail_joined k (hm.imp id Nat.le_of_succ_le)]
  refine first_joined k (hm.imp id fun htwo => ?_)
  rw [List.length_tail]
  exact Nat.le_sub_one_of_lt htwo

theorem line_eq (h : Joined k more r r') (hc : r.current ≠ .eof) : r'.line = r.line + k := by
  cases hs : r.signs with
  | nil => exact absurd (by rw [r.current_eq, hs]; rfl) hc
  | cons s ss =>
    rw [r.line_eq hs, r'.line_eq (by rw [h.signs_eq, hs]; rfl)]
    rfl

/-- Both readers move on by one sign. -/
theorem advance (h : Joined k more r r') (hm : more = [] ∨ 1 ≤ r.count) :
    ∃ s s', Parse.advance r = (.got (), s) ∧ Parse.advance r' = (.got (), s') ∧
      Joined k more s s' ∧ s.signs = r.signs.tail := by
  obtain ⟨s, hs, hsigns, hfault, herrors⟩ := r.advance_of_fault_none h.fault_eq
  obtain ⟨s', hs', hsigns', hfault', herrors'⟩ := r'.advance_of_fault_none h.fault_eq'
  refine ⟨s, s', by rw [Parse.advance, hs], by rw [Parse.advance, hs'], ⟨?_, hfault, hfault', ?_⟩,
    hsigns⟩
  · rw [hsigns', h.signs_eq, hsigns, tail_joined k hm]
  · rw [herrors', h.errors_eq, herrors]

theorem record (h : Joined k more r r') (e : SyntaxError) :
    Joined k more (r.record e) (r'.record e) :=
  ⟨h.signs_eq, h.fault_eq, h.fault_eq', by simp [h.errors_eq]⟩

end Joined

end Reader

/-! ### Readings side by side -/

def Reading.map {α : Type} (g : α → α) : Reading α → Reading α
  | .got a => .got (g a)
  | .failed => .failed
  | .broken e => .broken e
  | .exhausted => .exhausted

/-- The result of a reading whose failure is caught. -/
def Reading.caught {α : Type} : Reading α → Reading (Option α)
  | .got a => .got (some a)
  | .failed => .got none
  | .broken e => .broken e
  | .exhausted => .exhausted

namespace Parse

open Reader

/-- From any reader joined to `r`, the reading `p'` ends as `p` does from `r`, as long as what
stands behind the signs of `r` stays hidden; `Q` holds of a result of `p`. -/
structure Follows {α : Type} (k : Nat) (more : List Sign) (g : α → α) (Q : α → Reader → Prop)
    (p p' : Parse α) (r : Reader) : Prop where
  suffix : (p r).2.signs <:+ r.signs
  post : ∀ a, (p r).1 = .got a → Q a (p r).2
  ends : ∀ r', Joined k more r r' → (p r).2.Hides more →
    ∃ s', p' r' = ((p r).1.map g, s') ∧ Joined k more (p r).2 s'

variable {α β : Type} {k : Nat} {more : List Sign} {g : α → α} {h : β → β} {p p' : Parse α}
  {Q : α → Reader → Prop} {R : β → Reader → Prop} {r : Reader}

theorem Follows.count_le (hp : Follows k more g Q p p' r) : (p r).2.count ≤ r.count :=
  hp.suffix.length_le

theorem line_bind (f : Int → Parse β) (r : Reader) : (line >>= f) r = f r.line r := rfl

theorem current_bind (f : Terminal → Parse β) (r : Reader) :
    (current >>= f) r = f r.current r := rfl

theorem peek_bind (f : Terminal → Parse β) (r : Reader) : (peek >>= f) r = f r.peek r := rfl

theorem Follows.bind {f f' : α → Parse β} (hp : Follows k more g Q p p' r)
    (hf : ∀ a s, Q a s → Follows k more h R (f a) (f' (g a)) s) :
    Follows k more h R (p >>= f) (p' >>= f') r := by
  obtain ⟨hsuffix, hQ, hends⟩ := hp
  rcases hpr : p r with ⟨a | _ | e | _, s⟩
  · rw [hpr] at hsuffix hQ hends
    have hbind : (p >>= f) r = f a s := bind_of_got hpr
    have hs := hf a s (hQ a rfl)
    refine ⟨by rw [hbind]; exact hs.suffix.trans hsuffix, by rw [hbind]; exact hs.post, ?_⟩
    rw [hbind]
    intro r' hj hm
    obtain ⟨s', hp', hj'⟩ := hends r' hj (hm.mono hs.count_le)
    rw [bind_of_got hp']
    exact hs.ends s' hj' hm
  all_goals
    rw [hpr] at hsuffix hQ hends
    have hbind := bind_apply p f r
    rw [hpr] at hbind
    refine ⟨by rw [hbind]; exact hsuffix, (fun _ hgot => by rw [hbind] at hgot; cases hgot), ?_⟩
    rw [hbind]
    intro r' hj hm
    obtain ⟨s', hp', hj'⟩ := hends r' hj hm
    refine ⟨s', ?_, hj'⟩
    rw [bind_apply, hp']
    rfl

theorem Follows.mono {Q' : α → Reader → Prop} (hp : Follows k more g Q p p' r)
    (hQ : ∀ a s, Q a s → Q' a s) : Follows k more g Q' p p' r :=
  ⟨hp.suffix, fun a ha => hQ a _ (hp.post a ha), hp.ends⟩

theorem Follows.congr {q q' : Parse α} (hq : Follows k more g Q q q' r) (hp : p r = q r)
    (hp' : ∀ r', Joined k more r r' → p' r' = q' r') : Follows k more g Q p p' r := by
  refine ⟨?_, ?_, ?_⟩
  all_goals rw [hp]
  · exact hq.suffix
  · exact hq.post
  · intro r' hj hm
    rw [hp' r' hj]
    exact hq.ends r' hj hm

/-- A reading that ends at once, in the same way from both readers. -/
theorem follows_of_eq {a : Reading α} (hp : p r = (a, r)) (hQ : ∀ b, a = .got b → Q b r)
    (hp' : ∀ r', Joined k more r r' → p' r' = (a.map g, r')) : Follows k more g Q p p' r := by
  refine ⟨by simp only [hp, List.suffix_rfl], by rw [hp]; exact hQ, ?_⟩
  rw [hp]
  intro r' hj _
  exact ⟨r', hp' r' hj, hj⟩

theorem follows_pure {a b : α} (hQ : Q a r) (hb : b = g a) :
    Follows k more g Q (pure a) (pure b) r := by
  subst hb
  refine follows_of_eq rfl ?_ fun r' _ => rfl
  rintro _ ⟨⟩
  exact hQ

theorem follows_fail : Follows k more g Q fail fail r :=
  follows_of_eq rfl (fun _ hgot => by cases hgot) fun _ _ => rfl

theorem follows_exhausted : Follows k more g Q exhausted exhausted r :=
  follows_of_eq rfl (fun _ hgot => by cases hgot) fun _ _ => rfl

theorem follows_complain (e : SyntaxError) : Follows k more g Q (complain e) (complain e) r :=
  ⟨List.suffix_refl _, (fun _ hgot => by cases hgot),
    fun r' hj _ => ⟨r'.record e, rfl, hj.record e⟩⟩

theorem follows_complainOnce (e : SyntaxError) :
    Follows k more g Q (complainOnce e) (complainOnce e) r := by
  by_cases he : r.errors.getLast? = some e
  · refine follows_of_eq (a := .failed) ?_ (fun _ hgot => by cases hgot) fun r' hj => ?_
    · rw [complainOnce, if_pos he]
    · rw [complainOnce, hj.errors_eq, if_pos he]
      rfl
  · have hcomplain : ∀ r' : Reader, r'.errors = r.errors →
        (complainOnce e : Parse α) r' = complain e r' := by
      intro r' hr'
      rw [complainOnce, hr', if_neg he]
      rfl
    exact (follows_complain e).congr (hcomplain r rfl) fun r' hj => hcomplain r' hj.errors_eq

theorem follows_peek {f f' : Terminal → Parse β}
    (hf : Follows k more h R (f r.peek) (f' r.peek) r) :
    Follows k more h R (peek >>= f) (peek >>= f') r := by
  refine ⟨hf.suffix, hf.post, fun r' hj hm => ?_⟩
  have hpeek := hj.peek_eq (hm.mono hf.count_le)
  change ∃ s', f' r'.peek r' = _ ∧ _
  rw [hpeek]
  exact hf.ends r' hj hm

theorem follows_current {f f' : Terminal → Parse β}
    (hf : Follows k more h R (f r.current) (f' r.current) r) :
    Follows k more h R (current >>= f) (current >>= f') r := by
  refine ⟨hf.suffix, hf.post, fun r' hj hm => ?_⟩
  have hcurrent := hj.current_eq ((hm.mono hf.count_le).imp id Nat.le_of_succ_le)
  change ∃ s', f' r'.current r' = _ ∧ _
  rw [hcurrent]
  exact hf.ends r' hj hm

/-- The line of the current sign is known to be further down only where there is one. -/
theorem follows_line {f f' : Int → Parse β}
    (hf : ∀ l l' : Int, (r.current ≠ .eof → l' = l + k) → Follows k more h R (f l) (f' l') r) :
    Follows k more h R (line >>= f) (line >>= f') r := by
  have hline : ∀ l', (r.current ≠ .eof → l' = (r.line : Int) + k) →
      Follows k more h R (f r.line) (f' l') r := hf _
  have hsame := hline _ fun _ => rfl
  refine ⟨hsame.suffix, hsame.post, fun r' hj hm => ?_⟩
  refine (hline r'.line fun hc => ?_).ends r' hj hm
  rw [hj.line_eq hc, Int.natCast_add]

theorem advance_follows :
    Follows k more id (fun _ s => s.current = r.peek) advance advance r := by
  rcases r.advance_cases with ⟨s, ha, hs, -, -⟩ | ⟨e, ha, -, hfault⟩
  · have hadvance : advance r = (.got (), s) := by rw [advance, ha]
    have hcount : s.count = r.count - 1 := by simp [count, hs]
    refine ⟨?_, ?_, ?_⟩
    all_goals rw [hadvance]
    · rw [hs]
      exact List.tail_suffix _
    · intro _ _
      rw [s.current_eq, r.peek_eq, hs]
    · intro r' hj hm
      obtain ⟨t, s', ht, hs', hj', -⟩ :=
        hj.advance (hm.imp id fun htwo : 2 ≤ s.count => by omega)
      cases hadvance.symm.trans ht
      exact ⟨s', hs', hj'⟩
  · have hadvance : advance r = (.broken e, r) := by rw [advance, ha]
    refine follows_of_eq hadvance (fun _ hgot => by cases hgot) fun r' hj => ?_
    rw [hj.fault_eq] at hfault
    cases hfault

theorem follows_advance {f f' : Unit → Parse β}
    (hf : ∀ s, s.current = r.peek → Follows k more h R (f ()) (f' ()) s) :
    Follows k more h R (advance >>= f) (advance >>= f') r :=
  advance_follows.bind fun _ s hs => hf s hs

theorem follows_expect {kind : Kind} {f f' : Unit → Parse β}
    (hf : ∀ s, s.current.kind = kind → Follows k more h R (f ()) (f' ()) s) :
    Follows k more h R (expect kind >>= f) (expect kind >>= f') r := by
  rw [expect, bind_assoc, bind_assoc]
  refine follows_peek ?_
  by_cases hk : r.peek.kind = kind
  · simp only [if_pos hk]
    exact follows_advance fun s hs => hf s (by rw [hs, hk])
  · simp only [if_neg hk]
    exact follows_complain _

theorem follows_expectName {f f' : String → Parse β}
    (hf : ∀ x s, s.Inside → Follows k more h R (f x) (f' x) s) :
    Follows k more h R (expectName >>= f) (expectName >>= f') r := by
  simp only [expectName, bind_assoc]
  refine follows_expect fun s hs => ?_
  refine follows_current ?_
  cases hc : s.current with
  | ident x => exact hf x s (inside_of_current hc rfl)
  | _ => rw [hc] at hs; cases hs

theorem follows_expectText {f f' : String → Parse β}
    (hf : ∀ x s, s.Inside → Follows k more h R (f x) (f' x) s) :
    Follows k more h R (expectText >>= f) (expectText >>= f') r := by
  simp only [expectText, bind_assoc]
  refine follows_expect fun s hs => ?_
  refine follows_current ?_
  cases hc : s.current with
  | string x => exact hf x s (inside_of_current hc rfl)
  | _ => rw [hc] at hs; cases hs

theorem follows_skipSemicolon {f f' : Unit → Parse β}
    (hf : ∀ s, Follows k more h R (f ()) (f' ()) s) :
    Follows k more h R (skipSemicolon >>= f) (skipSemicolon >>= f') r := by
  rw [skipSemicolon, bind_assoc, bind_assoc]
  refine follows_peek ?_
  by_cases hp : r.peek = .mark .semicolon
  · simp only [if_pos hp]
    exact follows_advance fun s _ => hf s
  · simp only [if_neg hp]
    exact hf r

theorem follows_ofOption {o : Option α} (hQ : ∀ a ∈ o, Q a r) :
    Follows k more g Q (ofOption o) (ofOption (o.map g)) r := by
  cases o with
  | none => exact follows_fail
  | some a => exact follows_pure (hQ a rfl) rfl

theorem attempt_apply (p : Parse α) (r : Reader) : attempt p r = ((p r).1.caught, (p r).2) := by
  rw [attempt]
  rcases p r with ⟨a | _ | e | _, s⟩ <;> rfl

theorem caught_map (a : Reading α) : (a.map g).caught = a.caught.map (Option.map g) := by
  cases a <;> rfl

/-- A failure that is caught is caught in both. -/
theorem follows_attempt (hp : Follows k more g Q p p' r) :
    Follows k more (Option.map g) (fun o s => ∀ a ∈ o, Q a s) (attempt p) (attempt p') r := by
  refine ⟨?_, ?_, ?_⟩
  all_goals rw [attempt_apply]
  · exact hp.suffix
  · rintro o ho a rfl
    refine hp.post a ?_
    cases ha : (p r).1 with
    | got b =>
      rw [ha] at ho
      cases ho
      rfl
    | _ =>
      rw [ha] at ho
      cases ho
  · intro r' hj hm
    obtain ⟨s', hp', hj'⟩ := hp.ends r' hj hm
    refine ⟨s', ?_, hj'⟩
    rw [attempt_apply, hp', caught_map]

end Parse

/-! ### Each reading -/

namespace Grammar

open Parse Reader

variable {k : Nat} {more : List Sign} {r : Reader}

theorem names_follows (n : Nat) :
    Follows k more id (fun _ => Inside) (names n) (names n) r := by
  induction n generalizing r with
  | zero => exact follows_exhausted
  | succ n ih =>
    refine follows_advance fun s _ => follows_current ?_
    cases hc : s.current with
    | ident x =>
      have hinside : s.Inside := inside_of_current hc rfl
      refine follows_peek ?_
      by_cases hp : s.peek = .mark .comma
      · simp only [if_pos hp]
        exact follows_advance fun _ _ => ih.bind fun xs _ h => follows_pure h rfl
      · simp only [if_neg hp]
        exact follows_pure hinside rfl
    | _ => exact follows_complain _

theorem params_follows (n : Nat) :
    Follows k more id (fun _ _ => True) (params n) (params n) r := by
  refine follows_peek ?_
  by_cases hp : r.peek = .mark .rightParen
  · simp only [if_pos hp]
    exact follows_advance fun _ _ => follows_pure trivial rfl
  · simp only [if_neg hp]
    exact (names_follows n).bind fun xs _ _ => follows_expect fun _ _ => follows_pure trivial rfl

/-- One statement without the semicolon behind it. What stands behind that semicolon is hidden
up to here, and taking the semicolon itself looks no further. -/
def phrase (n : Nat) : Parse Stmt := do
  let line ← line
  match ← current with
  | .mark .setWord =>
    let name ← expectName
    expect (.mark .assign)
    advance
    let value ← expr n lowestPrecedence
    pure (.bind name value line)
  | .mark .anewWord =>
    let name ← expectName
    expect (.mark .assign)
    advance
    let value ← expr n lowestPrecedence
    pure (.rebind name value line)
  | .mark .returnWord =>
    match ← peek with
    | .mark .semicolon | .mark .rightBrace | .eof => pure (.giveBack none line)
    | _ =>
      advance
      let value ← expr n lowestPrecedence
      pure (.giveBack (some value) line)
  | .mark .includeWord =>
    let name ← expectText
    pure (.load name line)
  | .mark .breakWord => pure (.leave line)
  | .mark .continueWord => pure (.again line)
  | _ =>
    let value ← expr n lowestPrecedence
    pure (.expr value line)

theorem statement_of_semicolon (n : Nat) (hc : r.current = .mark .semicolon) :
    statement (n + 1) r = (.failed, r) := by
  rw [statement, line_bind, current_bind, hc]
  rfl

/-- A statement is read in two parts. -/
theorem statement_of_ne_semicolon (n : Nat) (hc : r.current ≠ .mark .semicolon) :
    statement (n + 1) r = (phrase n >>= fun s => skipSemicolon >>= fun _ => pure s) r := by
  rw [statement, phrase, bind_assoc, line_bind, line_bind, bind_assoc, current_bind, current_bind]
  cases hr : r.current with
  | mark m =>
    cases m with
    | semicolon => exact absurd hr hc
    | returnWord =>
      simp only [bind_assoc, peek_bind]
      cases r.peek with
      | mark m => cases m <;> simp only [bind_assoc] <;> rfl
      | _ =>
        simp only [bind_assoc]
        rfl
    | _ =>
      simp only [bind_assoc]
      rfl
  | _ =>
    simp only [bind_assoc]
    rfl

/-- With the bound `n`, no reading looks further than the sign behind its last one, and an
expression does not end on a semicolon. -/
structure Local (n : Nat) : Prop where
  -- `extend`, `conditional` and `statement` keep the line they start on, and the line of the end of
  -- a text is not known from its signs
  expr : ∀ {k more power r},
    Follows k more (Expr.shift k) (fun _ => Inside) (expr n power) (expr n power) r
  climb : ∀ {k more power left r}, Inside r →
    Follows k more (Expr.shift k) (fun _ => Inside) (climb n power left)
      (climb n power (left.shift k)) r
  extend : ∀ {k more m left r}, r.current ≠ .eof →
    Follows k more (Expr.shift k) (fun _ => Inside) (extend n m left)
      (extend n m (left.shift k)) r
  operand : ∀ {k more r},
    Follows k more (Expr.shift k) (fun _ => Inside) (operand n) (operand n) r
  conditional : ∀ {k more r}, r.current ≠ .eof →
    Follows k more (Expr.shift k)
      (fun e s => s.Inside ∧ ∀ k : Nat, (e.shift k).line = e.line + k)
      (conditional n) (conditional n) r
  items : ∀ {k more close r}, (Kind.mark close).isInner = true →
    Follows k more (shiftExprs k) (fun _ => Inside) (items n close) (items n close) r
  moreItems : ∀ {k more close r},
    Follows k more (shiftExprs k) (fun _ _ => True) (moreItems n close) (moreItems n close) r
  entries : ∀ {k more r},
    Follows k more (shiftEntries k) (fun _ s => s.peek = .mark .rightBrace) (entries n)
      (entries n) r
  block : ∀ {k more r},
    Follows k more (shiftStmts k) (fun _ => Inside) (block n) (block n) r
  blockRest : ∀ {k more r},
    Follows k more (shiftStmts k) (fun _ => Inside) (blockRest n) (blockRest n) r
  statement : ∀ {k more r}, r.current ≠ .eof →
    Follows k more (Stmt.shift k) (fun _ _ => True) (statement n) (statement n) r

namespace Local

variable {n : Nat} (h : Local n)

include h

theorem expr_succ {power : Nat} :
    Follows k more (Expr.shift k) (fun _ => Inside) (Grammar.expr (n + 1) power)
      (Grammar.expr (n + 1) power) r :=
  h.operand.bind fun _ _ hinside => h.climb hinside

theorem climb_succ {power : Nat} {left : Expr} (hinside : r.Inside) :
    Follows k more (Expr.shift k) (fun _ => Inside) (Grammar.climb (n + 1) power left)
      (Grammar.climb (n + 1) power (left.shift k)) r := by
  refine follows_peek ?_
  cases hpeek : r.peek with
  | mark m =>
    by_cases hm : power < m.precedence
    · simp only [if_pos hm]
      refine follows_advance fun s hs => ?_
      exact (h.extend (by simp [hs, hpeek])).bind fun _ _ hinside => h.climb hinside
    · simp only [if_neg hm]
      exact follows_pure hinside rfl
  | _ => exact follows_pure hinside rfl

theorem extend_succ {m : Mark} {left : Expr} (hc : r.current ≠ .eof) :
    Follows k more (Expr.shift k) (fun _ => Inside) (Grammar.extend (n + 1) m left)
      (Grammar.extend (n + 1) m (left.shift k)) r := by
  refine follows_line fun l l' hl => ?_
  rw [hl hc]
  have hinfix : ∀ o : Option Op, Follows k more (Expr.shift k) (fun _ => Inside)
      (ofOption o >>= fun op => advance >>= fun _ =>
        Grammar.expr n m.precedence >>= fun right => pure (.between op left right l))
      (ofOption o >>= fun op => advance >>= fun _ =>
        Grammar.expr n m.precedence >>= fun right =>
          pure (.between op (left.shift k) right (l + k))) r := by
    intro o
    cases o with
    | none => exact follows_fail
    | some op =>
      exact follows_advance fun _ _ => h.expr.bind fun _ _ hinside => follows_pure hinside rfl
  cases m with
  | leftParen => exact (h.items rfl).bind fun _ _ hinside => follows_pure hinside rfl
  | leftBracket =>
    exact follows_advance fun _ _ => h.expr.bind fun _ _ _ => follows_expect fun _ hk =>
      follows_pure (inside_of_kind hk rfl) rfl
  | _ => exact hinfix _

theorem operand_succ :
    Follows k more (Expr.shift k) (fun _ => Inside) (Grammar.operand (n + 1))
      (Grammar.operand (n + 1)) r := by
  refine follows_line fun l l' hl => follows_current ?_
  cases hc : r.current with
  | ident x | number x | string b | boolean b =>
    rw [hl (by simp [hc])]
    exact follows_pure (inside_of_current hc rfl) rfl
  | mark m =>
    rw [hl (by simp [hc])]
    cases m with
    | leftParen =>
      refine follows_advance fun _ _ => (follows_attempt h.expr).bind fun o _ _ =>
        follows_expect fun _ hk => follows_ofOption fun _ _ => ?_
      exact inside_of_kind hk rfl
    | ifWord => exact (h.conditional (by simp [hc])).mono fun _ _ hcond => hcond.1
    | functionWord =>
      refine follows_expect fun _ _ => (params_follows n).bind fun xs _ _ =>
        follows_expect fun _ _ => h.block.bind fun _ _ hinside => follows_pure hinside rfl
    | leftBracket => exact (h.items rfl).bind fun _ _ hinside => follows_pure hinside rfl
    | leftBrace =>
      exact h.entries.bind fun _ _ hpeek => follows_advance fun s hs =>
        follows_pure (inside_of_current (hs.trans hpeek) rfl) rfl
    | loopWord =>
      exact follows_expect fun _ _ => h.block.bind fun _ _ hinside => follows_pure hinside rfl
    | typeofWord | bang | minus | plus =>
      exact follows_advance fun _ _ => h.expr.bind fun _ _ hinside => follows_pure hinside rfl
    | _ => exact follows_complain _
  | _ => exact follows_complain _

theorem conditional_succ (hc : r.current ≠ .eof) :
    Follows k more (Expr.shift k)
      (fun e s => s.Inside ∧ ∀ k : Nat, (e.shift k).line = e.line + k)
      (Grammar.conditional (n + 1)) (Grammar.conditional (n + 1)) r := by
  refine follows_line fun l l' hl => ?_
  rw [hl hc]
  refine follows_expect fun _ _ => follows_advance fun _ _ => h.expr.bind fun test _ _ => ?_
  refine follows_expect fun _ _ => follows_expect fun _ _ => h.block.bind fun yes s hinside => ?_
  refine follows_peek ?_
  by_cases helse : s.peek = .mark .elseWord
  · simp only [if_pos helse]
    refine follows_advance fun s₁ _ => follows_peek ?_
    by_cases hif : s₁.peek = .mark .ifWord
    · simp only [if_pos hif]
      refine follows_advance fun s₂ hs₂ => ?_
      refine (h.conditional (by simp [hs₂, hif])).bind fun nested _ hnested => ?_
      refine follows_pure ⟨hnested.1, fun _ => rfl⟩ ?_
      rw [hnested.2 k]
      rfl
    · simp only [if_neg hif]
      exact follows_expect fun _ _ => h.block.bind fun no _ hinside =>
        follows_pure ⟨hinside, fun _ => rfl⟩ rfl
  · simp only [if_neg helse]
    exact follows_pure ⟨hinside, fun _ => rfl⟩ rfl

theorem items_succ {close : Mark} (hclose : (Kind.mark close).isInner = true) :
    Follows k more (shiftExprs k) (fun _ => Inside) (Grammar.items (n + 1) close)
      (Grammar.items (n + 1) close) r := by
  refine follows_peek ?_
  by_cases hp : r.peek = .mark close
  · simp only [if_pos hp]
    exact follows_advance fun s hs => follows_pure (inside_of_current (hs.trans hp) hclose) rfl
  · simp only [if_neg hp]
    refine follows_advance fun _ _ => h.expr.bind fun _ _ _ => h.moreItems.bind fun _ _ _ => ?_
    exact follows_expect fun _ hk => follows_pure (inside_of_kind hk hclose) rfl

theorem moreItems_succ {close : Mark} :
    Follows k more (shiftExprs k) (fun _ _ => True) (Grammar.moreItems (n + 1) close)
      (Grammar.moreItems (n + 1) close) r := by
  refine follows_peek ?_
  by_cases hp : r.peek = .mark .comma
  · simp only [if_pos hp]
    refine follows_advance fun s _ => follows_peek ?_
    by_cases hclose : s.peek = .mark close
    · simp only [if_pos hclose]
      exact follows_pure trivial rfl
    · simp only [if_neg hclose]
      exact follows_advance fun _ _ => h.expr.bind fun _ _ _ => h.moreItems.bind fun _ _ _ =>
        follows_pure trivial rfl
  · simp only [if_neg hp]
    exact follows_pure trivial rfl

theorem entries_succ :
    Follows k more (shiftEntries k) (fun _ s => s.peek = .mark .rightBrace)
      (Grammar.entries (n + 1)) (Grammar.entries (n + 1)) r := by
  refine follows_peek ?_
  by_cases hp : r.peek = .mark .rightBrace
  · simp only [if_pos hp]
    exact follows_pure hp rfl
  · simp only [if_neg hp]
    refine follows_advance fun _ _ => h.expr.bind fun key _ _ => follows_expect fun _ _ => ?_
    refine follows_advance fun _ _ => h.expr.bind fun value s _ => follows_peek ?_
    have hmore : ∀ s₁ : Reader, Follows k more (shiftEntries k)
        (fun _ s => s.peek = .mark .rightBrace)
        (Grammar.entries n >>= fun rest => pure ((key, value) :: rest))
        (Grammar.entries n >>= fun rest => pure ((key.shift k, value.shift k) :: rest)) s₁ :=
      fun s₁ => h.entries.bind fun _ _ hpeek => follows_pure hpeek rfl
    by_cases hclose : s.peek = .mark .rightBrace
    · simp only [if_pos hclose]
      exact hmore s
    · simp only [if_neg hclose]
      exact follows_expect fun s₁ _ => hmore s₁

theorem block_succ :
    Follows k more (shiftStmts k) (fun _ => Inside) (Grammar.block (n + 1))
      (Grammar.block (n + 1)) r :=
  follows_advance fun _ _ => h.blockRest

theorem blockRest_succ :
    Follows k more (shiftStmts k) (fun _ => Inside) (Grammar.blockRest (n + 1))
      (Grammar.blockRest (n + 1)) r := by
  have hmore : r.current ≠ .eof → Follows k more (shiftStmts k) (fun _ => Inside) (do
      let first ← attempt (Grammar.statement n)
      advance
      let more ← Grammar.blockRest n
      pure (first.toList ++ more)) (do
      let first ← attempt (Grammar.statement n)
      advance
      let more ← Grammar.blockRest n
      pure (first.toList ++ more)) r := by
    intro hc
    refine (follows_attempt (h.statement hc)).bind fun o _ _ => follows_advance fun _ _ => ?_
    refine h.blockRest.bind fun _ _ hinside => follows_pure hinside ?_
    rw [shiftStmts_append]
    cases o <;> rfl
  refine follows_current ?_
  cases hc : r.current with
  | eof => exact follows_complainOnce _
  | mark m =>
    have hne : r.current ≠ .eof := by simp [hc]
    cases m with
    | rightBrace => exact follows_pure (inside_of_current hc rfl) rfl
    | _ => exact hmore hne
  | _ => exact hmore (by simp [hc])

theorem phrase (hc : r.current ≠ .eof) :
    Follows k more (Stmt.shift k) (fun _ => Inside) (Grammar.phrase n)
      (Grammar.phrase n) r := by
  refine follows_line fun l l' hl => follows_current ?_
  rw [hl hc]
  have hwhole : Follows k more (Stmt.shift k) (fun _ => Inside)
      (Grammar.expr n lowestPrecedence >>= fun value => pure (Stmt.expr value l))
      (Grammar.expr n lowestPrecedence >>= fun value => pure (Stmt.expr value (l + k))) r :=
    h.expr.bind fun _ _ hinside => follows_pure hinside rfl
  cases hr : r.current with
  | mark m =>
    cases m with
    | setWord | anewWord =>
      exact follows_expectName fun _ _ _ => follows_expect fun _ _ => follows_advance fun _ _ =>
        h.expr.bind fun _ _ hinside => follows_pure hinside rfl
    | returnWord =>
      have hnone : Follows k more (Stmt.shift k) (fun _ => Inside)
          (pure (.giveBack none l)) (pure (.giveBack none (l + k))) r :=
        follows_pure (inside_of_current hr rfl) rfl
      have hsome : Follows k more (Stmt.shift k) (fun _ => Inside) (do
            advance
            let value ← Grammar.expr n lowestPrecedence
            pure (.giveBack (some value) l)) (do
            advance
            let value ← Grammar.expr n lowestPrecedence
            pure (.giveBack (some value) (l + k))) r :=
        follows_advance fun _ _ => h.expr.bind fun _ _ hinside => follows_pure hinside rfl
      refine follows_peek ?_
      cases r.peek with
      | eof => exact hnone
      | mark m =>
        cases m with
        | semicolon | rightBrace => exact hnone
        | _ => exact hsome
      | _ => exact hsome
    | includeWord => exact follows_expectText fun _ _ hinside => follows_pure hinside rfl
    | breakWord | continueWord => exact follows_pure (inside_of_current hr rfl) rfl
    | _ => exact hwhole
  | _ => exact hwhole

theorem statement_succ (hc : r.current ≠ .eof) :
    Follows k more (Stmt.shift k) (fun _ _ => True) (Grammar.statement (n + 1))
      (Grammar.statement (n + 1)) r := by
  have hsame : ∀ r', Joined k more r r' → r'.current = r.current :=
    fun r' hj => hj.current_eq (.inr (r.length_pos_of_current hc))
  by_cases hsemicolon : r.current = .mark .semicolon
  · exact follows_fail.congr (statement_of_semicolon n hsemicolon) fun r' hj =>
      statement_of_semicolon n ((hsame r' hj).trans hsemicolon)
  · have hparts : Follows k more (Stmt.shift k) (fun _ _ => True)
        (Grammar.phrase n >>= fun s => skipSemicolon >>= fun _ => pure s)
        (Grammar.phrase n >>= fun s => skipSemicolon >>= fun _ => pure s) r :=
      (h.phrase hc).bind fun _ _ _ => follows_skipSemicolon fun _ => follows_pure trivial rfl
    refine hparts.congr (statement_of_ne_semicolon n hsemicolon) fun r' hj => ?_
    refine statement_of_ne_semicolon n ?_
    rwa [hsame r' hj]

end Local

theorem locality (n : Nat) : Local n := by
  induction n with
  | zero => constructor <;> intros <;> exact follows_exhausted
  | succ n h =>
    exact {
      expr := h.expr_succ
      climb := h.climb_succ
      extend := h.extend_succ
      operand := h.operand_succ
      conditional := h.conditional_succ
      items := h.items_succ
      moreItems := h.moreItems_succ
      entries := h.entries_succ
      block := h.block_succ
      blockRest := h.blockRest_succ
      statement := h.statement_succ }

/-- The statements of a text do not depend on the lines they stand on. -/
theorem statements_follows (n : Nat) :
    Follows k more (shiftStmts k) (fun _ _ => True) (statements n) (statements n) r := by
  induction n generalizing r with
  | zero => exact follows_exhausted
  | succ n ih =>
    refine follows_current ?_
    cases hc : r.current with
    | eof => exact follows_pure trivial rfl
    | _ =>
      have hne : r.current ≠ .eof := by simp [hc]
      refine (follows_attempt ((locality n).statement hne)).bind fun o _ _ => ?_
      refine follows_advance fun _ _ => ih.bind fun _ _ _ => follows_pure trivial ?_
      rw [shiftStmts_append]
      cases o <;> rfl

end Grammar

end MeowLang
