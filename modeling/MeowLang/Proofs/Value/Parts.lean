import MeowLang.Native.Call
import MeowLang.Proofs.Assoc
import MeowLang.Value.Operation

/-! The parts of values: a value, and what stands inside it at any depth. Operators and native
functions take values apart and put data around them, but make neither functions nor marks; and
where they fail, it is for what they were given. -/
namespace MeowLang

/-- The failure is one of an operation or a load; no loop is missing, and no embedding program
speaks. -/
def Cause.isOrdinary : Cause → Bool
  | strayControl _ | host _ => false
  | _ => true

namespace Value

/-- `u` is `v` or stands somewhere inside it. -/
inductive Within : Value → Value → Prop
  | refl (v : Value) : Within v v
  | item {u v : Value} {items : List Value} (mem : v ∈ items) (inner : Within u v) :
      Within u (.array items)
  | entry {u v : Value} {k : Key} {entries : List (Key × Value)} (mem : (k, v) ∈ entries)
      (inner : Within u v) : Within u (.map entries)
  | returned {u v : Value} {identity : Nat} (inner : Within u v) : Within u (.returned v identity)

/-- Neither a function nor a mark. -/
def isData : Value → Bool
  | null | bool _ | number _ | string _ | array _ | map _ | native _ _ => true
  | function _ | failure _ _ _ | returned _ _ | control _ | unbound | count _ => false

/-- Every part of `v` is data or a part of one of `sources`. -/
def MadeOf (sources : List Value) (v : Value) : Prop :=
  ∀ u : Value, u.Within v → u.isData ∨ ∃ w ∈ sources, u.Within w

variable {sources : List Value} {v : Value}

theorem madeOf_of_mem (h : v ∈ sources) : MadeOf sources v := fun _ hu => .inr ⟨v, h, hu⟩

theorem madeOf_null : MadeOf sources null := by
  intro u hu; cases hu; exact .inl rfl

theorem madeOf_bool (b : Bool) : MadeOf sources (bool b) := by
  intro u hu; cases hu; exact .inl rfl

theorem madeOf_number (x : Float) : MadeOf sources (number x) := by
  intro u hu; cases hu; exact .inl rfl

theorem madeOf_string (s : String) : MadeOf sources (string s) := by
  intro u hu; cases hu; exact .inl rfl

theorem madeOf_array {items : List Value} (h : ∀ w ∈ items, MadeOf sources w) :
    MadeOf sources (array items) := by
  intro u hu
  cases hu with
  | refl => exact .inl rfl
  | item mem inner => exact h _ mem u inner

theorem madeOf_item {items : List Value} (ha : array items ∈ sources) (hv : v ∈ items) :
    MadeOf sources v := fun _ hu => .inr ⟨_, ha, .item hv hu⟩

theorem madeOf_getD {items : List Value} {o : Option Value} (ha : array items ∈ sources)
    (ho : ∀ w, o = some w → w ∈ items) : MadeOf sources (o.getD null) := by
  cases o with
  | none => exact madeOf_null
  | some w => exact madeOf_item ha (ho w rfl)

/-! ### Operators -/

theorem madeOf_unary {op : Op} {w : Value} (h : v.unary op = .ok w) : MadeOf sources w := by
  unfold unary at h
  split at h <;> cases h
  · exact madeOf_bool _
  · exact madeOf_number _
  · exact madeOf_number _

theorem madeOf_onNumbers {op : Op} {x y : Float} (h : onNumbers op x y = some v) :
    MadeOf sources v := by
  unfold onNumbers at h
  split at h <;> cases h
  all_goals first | exact madeOf_number _ | exact madeOf_bool _

theorem madeOf_isMember {l r : Value} (h : l.isMember r = .ok v) : MadeOf sources v := by
  unfold isMember at h
  split at h <;> cases h <;> exact madeOf_bool _

theorem madeOf_compare {op : Op} {l r : Value} {f : Bool → Bool}
    (h : (compareEqual op l r).map (fun b => bool (f b)) = .ok v) : MadeOf sources v := by
  unfold compareEqual at h
  split at h <;> cases h
  exact madeOf_bool _

theorem madeOf_binary {op : Op} {l r : Value} (h : l.binary op r = .ok v) : MadeOf sources v := by
  unfold binary at h
  dsimp only at h
  split at h
  · exact madeOf_isMember h
  · exact madeOf_compare (f := id) h
  · exact madeOf_compare (f := not) h
  · split at h
    · split at h
      · rename_i hn
        cases h
        exact madeOf_onNumbers hn
      · cases h
    · split at h <;> cases h
      exact madeOf_string _
    · cases h

theorem madeOf_itemAt (items : List Value) (x : Float) : MadeOf [array items] (itemAt items x) := by
  have hget : ∀ i : Nat, MadeOf [array items] (items[i]?.getD null) := fun _ =>
    madeOf_getD List.mem_cons_self fun _ => List.mem_of_getElem?
  unfold itemAt
  split
  · exact madeOf_null
  · dsimp only
    split
    · split
      · exact madeOf_null
      · exact hget _
    · exact hget _

theorem madeOf_index {c i : Value} (h : c.index i = .ok v) : MadeOf [c] v := by
  unfold index at h
  split at h
  · cases h
    exact madeOf_itemAt _ _
  · cases h
  · rename_i entries
    cases hk : i.key? with
    | none => simp [hk] at h
    | some k =>
      simp only [hk, Except.ok.injEq] at h
      subst h
      cases hl : entries.lookup k with
      | none => exact madeOf_null
      | some w =>
        obtain ⟨k', hm⟩ := Assoc.mem_of_lookup hl
        exact fun u hu => .inr ⟨_, List.mem_cons_self, .entry hm hu⟩
  · cases h

section
variable {cause : Cause}

theorem isOrdinary_unary {op : Op} (h : v.unary op = .error cause) :
    cause.isOrdinary = true := by
  unfold unary at h
  split at h <;> cases h
  rfl

theorem isOrdinary_isMember {l r : Value} (h : l.isMember r = .error cause) :
    cause.isOrdinary = true := by
  unfold isMember at h
  split at h <;> cases h
  rfl

theorem isOrdinary_compare {op : Op} {l r : Value} {f : Bool → Value}
    (h : (compareEqual op l r).map f = .error cause) : cause.isOrdinary = true := by
  unfold compareEqual at h
  split at h <;> cases h
  rfl

theorem isOrdinary_binary {op : Op} {l r : Value} (h : l.binary op r = .error cause) :
    cause.isOrdinary = true := by
  have unknown : (if l.kind = r.kind then Cause.unknownBinary l op r
      else .typeMismatch l op r).isOrdinary = true := by split <;> rfl
  unfold binary at h
  dsimp only at h
  split at h
  · exact isOrdinary_isMember h
  · exact isOrdinary_compare h
  · exact isOrdinary_compare h
  · split at h
    · split at h <;> cases h
      exact unknown
    · split at h <;> cases h
      exact unknown
    · cases h
      exact unknown

theorem isOrdinary_index {c i : Value} (h : c.index i = .error cause) :
    cause.isOrdinary = true := by
  unfold index at h
  split at h
  · cases h
  · cases h
    rfl
  · split at h <;> cases h
    rfl
  · cases h
    rfl

end

end Value

/-! ### Native functions -/

/-- A node was met that is neither a statement nor an expression of the language. -/
def Halt.isUnknown : Halt → Bool
  | .unknownStatement _ _ | .unknownExpression _ => true
  | _ => false

theorem World.isUnknown_of_readText {w : World} {path : String} {h : Halt}
    (hr : w.readText path = .error h) : h.isUnknown = false := by
  unfold readText FileTree.readText at hr
  split at hr
  · cases hr
    rfl
  · split at hr
    · cases hr
      rfl
    · split at hr <;> cases hr
      rfl

theorem World.isUnknown_of_writeText {w : World} {path text : String} {h : Halt}
    (hw : w.writeText path text = .error h) : h.isUnknown = false := by
  unfold writeText at hw
  split at hw
  · cases hw
    rfl
  · split at hw <;> cases hw
    rfl

namespace Native

open Value

/-- What a call can come to: a value made of the arguments, an ordinary fault without a place, or
a halt that is not about code. -/
inductive Answers (args : List Value) : Outcome Value → Prop
  | value {v : Value} (made : MadeOf args v) : Answers args (.value v)
  | fault (cause : Cause) (ordinary : cause.isOrdinary = true) :
      Answers args (.signal (.failed ⟨cause, none, none⟩))
  | halt {h : Halt} (known : h.isUnknown = false) : Answers args (.halted h)

variable {args : List Value} {v : Value}

theorem answers_ofExcept {r : Except Cause Value} (h : ∀ v, r = .ok v → MadeOf args v)
    (he : ∀ cause, r = .error cause → cause.isOrdinary = true) : Answers args (.ofExcept r) := by
  cases r with
  | ok v => exact .value (h v rfl)
  | error cause => exact .fault cause (he cause rfl)

theorem madeOf_onArray {f : List Value → Value} (hf : ∀ items, MadeOf [.array items] (f items))
    (h : onArray f args = .ok v) : MadeOf args v := by
  unfold onArray at h
  split at h <;> cases h
  exact hf _

theorem madeOf_onArrayAnd {f : List Value → Value → Value}
    (hf : ∀ items w, MadeOf [.array items, w] (f items w)) (h : onArrayAnd f args = .ok v) :
    MadeOf args v := by
  unfold onArrayAnd at h
  split at h <;> cases h
  exact hf _ _

theorem madeOf_onNumber {f : Float → Float} (h : onNumber f args = .ok v) : MadeOf args v := by
  unfold onNumber at h
  split at h <;> cases h
  exact madeOf_number _

theorem madeOf_onTwo {f : Float → Float → Float} (h : onNumbers f args = .ok v) :
    MadeOf args v := by
  unfold onNumbers at h
  cases ht : twoNumbers args with
  | error cause => rw [ht] at h; cases h
  | ok p => rw [ht] at h; cases h; exact madeOf_number _

/-- An array whose items are items of another one. -/
theorem madeOf_subarray {items others : List Value} (ha : Value.array items ∈ args)
    (h : ∀ w ∈ others, w ∈ items) : MadeOf args (.array others) :=
  madeOf_array fun w hw => madeOf_item ha (h w hw)

theorem madeOf_pure {f : Native} {g : List Value → Except Cause Value} (hg : f.pure? = some g)
    (h : g args = .ok v) : MadeOf args v := by
  have first : ∀ {items : List Value}, Value.array items ∈ [Value.array items] := List.mem_cons_self
  cases f <;> cases hg
  case length =>
    unfold callLength at h
    split at h <;> cases h <;> exact madeOf_number _
  case push =>
    refine madeOf_onArrayAnd (fun items w => madeOf_array fun u hu => ?_) h
    rcases List.mem_append.mp hu with hu | hu
    · exact madeOf_item List.mem_cons_self hu
    · exact madeOf_of_mem (List.mem_cons_of_mem _ hu)
  case pounce =>
    exact madeOf_onArray
      (fun items => madeOf_subarray first fun _ => (List.dropLast_subset items ·)) h
  case top =>
    exact madeOf_onArray (fun items => madeOf_getD first fun _ => List.mem_of_mem_head?) h
  case bottom =>
    exact madeOf_onArray (fun items => madeOf_subarray first fun _ => List.mem_of_mem_tail) h
  case includes => exact madeOf_onArrayAnd (fun _ _ => madeOf_bool _) h
  case replace =>
    unfold callReplace at h
    split at h <;> cases h
    exact madeOf_string _
  case inWhiskers =>
    unfold callInWhiskers at h
    split at h <;> cases h <;> exact madeOf_string _
  case split =>
    unfold callSplit at h
    split at h <;> cases h
    refine madeOf_array fun w hw => ?_
    obtain ⟨s, -, rfl⟩ := List.mem_map.mp hw
    exact madeOf_string s
  case join =>
    unfold callJoin at h
    split at h <;> cases h
    exact madeOf_string _
  case host => cases h; exact madeOf_null
  case pow | modulo => exact madeOf_onTwo h
  all_goals exact madeOf_onNumber h

theorem isOrdinary_twoNumbers {cause : Cause} (h : twoNumbers args = .error cause) :
    cause.isOrdinary = true := by
  unfold twoNumbers at h
  split at h <;> cases h <;> rfl

theorem isOrdinary_onTwo {f : Float → Float → Float} {cause : Cause}
    (h : onNumbers f args = .error cause) : cause.isOrdinary = true := by
  unfold onNumbers at h
  cases ht : twoNumbers args with
  | error found =>
    rw [ht] at h
    cases h
    exact isOrdinary_twoNumbers ht
  | ok p =>
    rw [ht] at h
    cases h

theorem isOrdinary_onArray {f : List Value → Value} {cause : Cause}
    (h : onArray f args = .error cause) : cause.isOrdinary = true := by
  unfold onArray at h
  split at h <;> cases h <;> rfl

theorem isOrdinary_onArrayAnd {f : List Value → Value → Value} {cause : Cause}
    (h : onArrayAnd f args = .error cause) : cause.isOrdinary = true := by
  unfold onArrayAnd at h
  split at h <;> cases h <;> rfl

theorem isOrdinary_onNumber {f : Float → Float} {cause : Cause}
    (h : onNumber f args = .error cause) : cause.isOrdinary = true := by
  unfold onNumber at h
  split at h <;> cases h <;> rfl

theorem isOrdinary_pure {f : Native} {g : List Value → Except Cause Value} {cause : Cause}
    (hg : f.pure? = some g) (h : g args = .error cause) : cause.isOrdinary = true := by
  cases f <;> cases hg
  case length =>
    unfold callLength at h
    split at h <;> cases h <;> rfl
  case replace =>
    unfold callReplace at h
    split at h <;> cases h <;> rfl
  case inWhiskers =>
    unfold callInWhiskers at h
    split at h <;> cases h
    rfl
  case split =>
    unfold callSplit at h
    split at h <;> cases h <;> rfl
  case join =>
    unfold callJoin at h
    split at h <;> cases h <;> rfl
  case host => cases h
  case push | includes => exact isOrdinary_onArrayAnd h
  case pounce | top | bottom => exact isOrdinary_onArray h
  case pow | modulo => exact isOrdinary_onTwo h
  all_goals exact isOrdinary_onNumber h

theorem mem_of_mem_shuffle {α : Type} {w : World} {n : Nat} {items : List α} {x : α}
    (h : x ∈ (w.shuffle n items).1) : x ∈ items := by
  induction n generalizing w items with
  | zero => exact h
  | succ n ih =>
    simp only [World.shuffle] at h
    split at h
    · exact h
    · rename_i item hitem
      rcases List.mem_cons.mp h with rfl | h
      · exact List.mem_of_getElem? hitem
      · exact List.mem_of_mem_eraseIdx (ih h)

theorem answers_ofLine (args : List Value) (line : InputLine) : Answers args (ofLine line) := by
  cases line with
  | text s => exact .value (madeOf_string s)
  | ended => exact .value madeOf_null
  | noText => exact .halt rfl
  | interrupt => exact .halt rfl

theorem answers_callKibble (args : List Value) (w : World) :
    Answers args (callKibble args w).1 := by
  unfold callKibble
  dsimp only
  split
  · exact answers_ofLine _ _
  · exact answers_ofLine _ _
  · exact .fault _ rfl

theorem answers_callNap (args : List Value) (w : World) : Answers args (callNap args w).1 := by
  unfold callNap
  split
  · split
    · dsimp only
      split
      · exact .value madeOf_null
      · exact .halt rfl
    · exact .fault _ rfl
  · exact .fault _ rfl
  · exact .fault _ rfl

theorem answers_callReadText (args : List Value) (w : World) :
    Answers args (callReadText args w).1 := by
  unfold callReadText
  split
  · split
    · exact .value (madeOf_string _)
    · exact .fault _ rfl
    · rename_i hread
      exact .halt (World.isUnknown_of_readText hread)
  · exact .fault _ rfl
  · exact .fault _ rfl

theorem answers_callWriteText (args : List Value) (w : World) :
    Answers args (callWriteText args w).1 := by
  unfold callWriteText
  split
  · split
    · exact .value madeOf_null
    · exact .fault _ rfl
    · rename_i hwrite
      exact .halt (World.isUnknown_of_writeText hwrite)
  · exact .fault _ rfl
  · exact .fault _ rfl

theorem answers_callFileExists (args : List Value) (w : World) :
    Answers args (callFileExists args w).1 := by
  unfold callFileExists
  split
  · exact .value (madeOf_bool _)
  · exact .fault _ rfl
  · exact .fault _ rfl

theorem answers_callBetween (args : List Value) (w : World) :
    Answers args (callBetween args w).1 := by
  unfold callBetween
  split
  · rename_i hn
    exact .fault _ (isOrdinary_twoNumbers hn)
  · exact .value (madeOf_number _)

theorem answers_callRandint (args : List Value) (w : World) :
    Answers args (callRandint args w).1 := by
  unfold callRandint
  split
  · rename_i hn
    exact .fault _ (isOrdinary_twoNumbers hn)
  · split
    · dsimp only
      split
      · exact .fault _ rfl
      · exact .value (madeOf_number _)
    · exact .fault _ rfl

theorem answers_callChoice (args : List Value) (w : World) :
    Answers args (callChoice args w).1 := by
  unfold callChoice
  split
  · dsimp only
    split
    · rename_i item hitem
      exact .value (madeOf_item List.mem_cons_self (List.mem_of_getElem? hitem))
    · exact .fault _ rfl
  · exact .fault _ rfl
  · exact .fault _ rfl

theorem answers_callShuffle (args : List Value) (w : World) :
    Answers args (callShuffle args w).1 := by
  unfold callShuffle
  split
  · exact .value (madeOf_subarray List.mem_cons_self fun _ => mem_of_mem_shuffle)
  · exact .fault _ rfl
  · exact .fault _ rfl

theorem call_of_pure {f : Native} {g : List Value → Except Cause Value} (h : f.pure? = some g)
    (args : List Value) (w : World) : f.call args w = (.ofExcept (g args), w) := by
  cases f <;> cases h <;> rfl

/-- No function answers with anything that is neither data nor a part of its arguments. -/
theorem answers_call (f : Native) (args : List Value) (w : World) :
    Answers args (f.call args w).1 := by
  cases hp : f.pure? with
  | some g =>
    rw [call_of_pure hp]
    exact answers_ofExcept (fun v hv => madeOf_pure hp hv) fun cause hc => isOrdinary_pure hp hc
  | none =>
    cases f <;> try contradiction
    case log | meow =>
      simp only [call, callLog]
      split
      · exact .fault _ rfl
      · exact .value madeOf_null
    case kibble => exact answers_callKibble args w
    case nap => exact answers_callNap args w
    case readText => exact answers_callReadText args w
    case writeText => exact answers_callWriteText args w
    case fileExists => exact answers_callFileExists args w
    case randomBetween | uniform => exact answers_callBetween args w
    case random =>
      simp only [call, callRandom]
      split
      · exact .value (madeOf_number _)
      · exact .fault _ rfl
    case randint => exact answers_callRandint args w
    case choice => exact answers_callChoice args w
    case shuffle => exact answers_callShuffle args w

end Native

end MeowLang
