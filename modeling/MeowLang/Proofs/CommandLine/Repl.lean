import Mathlib.Data.List.Infix
import MeowLang.CommandLine.Repl
import MeowLang.Proofs.Evaluation.Course

/-! An interactive session is the evaluation of its chunks one after the other. The lines that are
read at the prompt fall in one way into chunks, which are the shortest runs of lines that can be
read without a complaint about the end of the text. A chunk that is read without complaints is run
once, all others only use the console, and the other prompt is shown just inside a chunk. -/
namespace MeowLang

theorem Text.occursIn_iff {part text : List Char} : occursIn part text = true ↔ part <:+: text := by
  induction text with
  | nil => simp [occursIn]
  | cons c text ih => simp [occursIn, ih, List.infix_cons_iff, List.isPrefixOf_iff_prefix]

namespace Repl

/-! ### Chunks -/

/-- Reading the lines as one text breaks off, or none of its complaints speaks of the end. -/
def Whole (lines : List String) : Prop :=
  ∀ parsed, Parsed.ofSource ("\n".intercalate lines) = .ok parsed →
    ∀ e ∈ parsed.errors, ¬ "EOF".toList <:+: e.message.toList

/-- The lines are whole, and no beginning of them is. -/
structure IsChunk (lines : List String) : Prop where
  ne_nil : lines ≠ []
  whole : Whole lines
  shortest : ∀ start, start <+: lines → start ≠ [] → start ≠ lines → ¬ Whole start

/-- The lines are the start of a chunk; there may be none. -/
def IsUnfinished (lines : List String) : Prop :=
  ∀ start, start <+: lines → start ≠ [] → ¬ Whole start

/-- The lines are those of the chunks and of one that is not finished. -/
structure Cut (lines : List String) (chunks : List (List String)) (rest : List String) : Prop where
  lines_eq : chunks.flatten ++ rest = lines
  isChunk : ∀ chunk ∈ chunks, IsChunk chunk
  unfinished : IsUnfinished rest

theorem isUnfinished_nil : IsUnfinished [] := fun _ h hne _ => hne (List.prefix_nil.mp h)

variable {lines lines' buffer rest rest' : List String} {chunks chunks' : List (List String)}
  {line : String}

/-- One more line ends the chunk or does not. -/
theorem IsUnfinished.snoc (h : IsUnfinished buffer) (hw : ¬ Whole (buffer ++ [line])) :
    IsUnfinished (buffer ++ [line]) := by
  intro start hstart hne
  rcases List.prefix_concat_iff.mp hstart with rfl | hstart
  · exact hw
  · exact h start hstart hne

theorem IsUnfinished.isChunk (h : IsUnfinished buffer) (hw : Whole (buffer ++ [line])) :
    IsChunk (buffer ++ [line]) := by
  refine ⟨by simp, hw, fun start hstart hne hself => ?_⟩
  rcases List.prefix_concat_iff.mp hstart with rfl | hstart
  · exact absurd rfl hself
  · exact h start hstart hne

theorem IsUnfinished.not_prefix (h : IsUnfinished rest) (hc : IsChunk lines) : ¬ lines <+: rest :=
  fun hp => h lines hp hc.ne_nil hc.whole

theorem IsChunk.eq_of_prefix (h : IsChunk lines) (h' : IsChunk lines') (hp : lines <+: lines') :
    lines = lines' := by
  by_contra hne
  exact h'.shortest lines hp h.ne_nil hne h.whole

/-- Lines are cut in one way. -/
theorem Cut.unique (h : Cut lines chunks rest) (h' : Cut lines chunks' rest') :
    chunks' = chunks ∧ rest' = rest := by
  induction chunks generalizing lines chunks' with
  | nil =>
    cases chunks' with
    | nil => exact ⟨rfl, h'.lines_eq.trans h.lines_eq.symm⟩
    | cons chunk chunks' =>
      refine absurd ?_ (h.unfinished.not_prefix (h'.isChunk chunk List.mem_cons_self))
      have hall : rest = chunk ++ (chunks'.flatten ++ rest') := by
        have := h.lines_eq.trans h'.lines_eq.symm
        simpa using this
      exact hall ▸ List.prefix_append _ _
  | cons chunk chunks ih =>
    have hchunk := h.isChunk chunk List.mem_cons_self
    have hall := h.lines_eq
    rw [List.flatten_cons, List.append_assoc] at hall
    cases chunks' with
    | nil =>
      refine absurd ?_ (h'.unfinished.not_prefix hchunk)
      have hrest : rest' = lines := h'.lines_eq
      rw [hrest, ← hall]
      exact List.prefix_append _ _
    | cons chunk' chunks' =>
      have hchunk' := h'.isChunk chunk' List.mem_cons_self
      have hall' := h'.lines_eq
      rw [List.flatten_cons, List.append_assoc] at hall'
      have hprefix : chunk <+: lines := hall ▸ List.prefix_append _ _
      have hprefix' : chunk' <+: lines := hall' ▸ List.prefix_append _ _
      obtain rfl : chunk = chunk' := by
        rcases List.prefix_or_prefix_of_prefix hprefix hprefix' with hp | hp
        · exact hchunk.eq_of_prefix hchunk' hp
        · exact (hchunk'.eq_of_prefix hchunk hp).symm
      have htail : Cut (chunks.flatten ++ rest) chunks rest :=
        ⟨rfl, fun c hc => h.isChunk c (List.mem_cons_of_mem _ hc), h.unfinished⟩
      have htail' : Cut (chunks.flatten ++ rest) chunks' rest' :=
        ⟨List.append_cancel_left (hall'.trans hall.symm),
          fun c hc => h'.isChunk c (List.mem_cons_of_mem _ hc), h'.unfinished⟩
      obtain ⟨rfl, rfl⟩ := ih htail htail'
      exact ⟨rfl, rfl⟩

/-! ### The console -/

end Repl

/-- Takes lines from the input and writes to the console, and leaves everything else. -/
def Session.talk (s : Session) (count : Nat) (text : String) : Session :=
  { s with machine := { s.machine with world := { s.machine.world with
      input := s.machine.world.input.drop count, output := s.machine.world.output ++ text } } }

namespace Session

variable (s : Session)

theorem talk_zero : s.talk 0 "" = s := by
  simp only [talk, List.drop_zero, String.append_empty]

theorem write_eq_talk (text : String) : s.write text = s.talk 0 text := rfl

theorem talk_talk (i j : Nat) (a b : String) : (s.talk i a).talk j b = s.talk (i + j) (a ++ b) := by
  simp only [talk, List.drop_drop, String.append_assoc]

/-- A program takes lines from the front of the input. -/
theorem input_run (program : Program) :
    (s.run program).2.machine.world.input <:+ s.machine.world.input :=
  (World.course_reads.steered ampleBound).program s.site program .null s.machine

end Session

namespace Repl

def prompts : List String → List String
  | [] => []
  | _ :: rest => prompt :: rest.map fun _ => continuationPrompt

/-- The prompt for the line behind those of a chunk. -/
def promptAfter (buffer : List String) : String :=
  if buffer.isEmpty then prompt else continuationPrompt

def exchangesOf (chunk : List String) : List (String × InputLine) :=
  (prompts chunk).zip (chunk.map .text)

/-- What the steps of a session show and read at the prompt. -/
def exchanges (debug : Bool) : Nat → State → List (String × InputLine)
  | 0, _ => []
  | n + 1, s =>
    (promptAfter s.chunk, (s.session.machine.world.ask (promptAfter s.chunk)).1) ::
      match step debug s with
      | .goOn s => exchanges debug n s
      | .stop _ _ => []

theorem prompts_snoc (buffer : List String) (line : String) :
    prompts (buffer ++ [line]) = prompts buffer ++ [promptAfter buffer] := by
  cases buffer <;> simp [prompts, promptAfter]

theorem exchangesOf_snoc (buffer : List String) (line : String) :
    exchangesOf (buffer ++ [line]) = exchangesOf buffer ++ [(promptAfter buffer, .text line)] := by
  have hlength : (prompts buffer).length = (buffer.map InputLine.text).length := by
    cases buffer <;> simp [prompts]
  rw [exchangesOf, prompts_snoc, List.map_append, List.zip_append hlength]
  rfl

/-- The session in which the lines of the buffer have been read at the prompt. -/
def held (s : Session) (buffer : List String) : Session :=
  s.talk buffer.length (String.join (prompts buffer))

/-! ### Steps -/

/-- The program of a chunk that is read without complaints. -/
def programOf (chunk : List String) : Option Program :=
  match Parsed.ofSource ("\n".intercalate chunk) with
  | .ok ⟨program, []⟩ => some program
  | _ => none

/-- The answer at a prompt ends the session, which nothing is left to catch if it is no text. -/
inductive Closes (buffer : List String) : InputLine → Except Halt Unit → Prop
  | ended : Closes buffer .ended (.ok ())
  | interrupt : Closes buffer .interrupt (.ok ())
  | noText (fault : Text.Utf8.Fault) : Closes buffer (.noText fault) (.error (.undecodable fault))
  | word {line : String} (first : buffer = [])
      (word : Text.trim line = "exit" ∨ Text.trim line = "quit") :
      Closes buffer (.text line) (.ok ())

/-- What a whole chunk does to a session: if there are complaints about it, the console is used
and nothing else is done, and otherwise its program is run once. -/
inductive Takes (s : Session) (chunk : List String) : Session → Prop
  | refused {text : String} (complaints : programOf chunk = none) :
      Takes s chunk (s.talk chunk.length text)
  | run {program : Program} {before after : String} (clean : programOf chunk = some program) :
      Takes s chunk (((s.talk chunk.length before).run program).2.talk 0 after)

/-- What an answer at the prompt makes of the lines that are held. -/
inductive Turn (s : Session) (buffer : List String) : InputLine → Next → Prop
  | close {answer : InputLine} {exit : Except Halt Unit} {text : String}
      (closes : Closes buffer answer exit) :
      Turn s buffer answer (.stop exit (s.talk (buffer.length + 1) text))
  | hold {line : String} (unfinished : ¬ Whole (buffer ++ [line])) :
      Turn s buffer (.text line) (.goOn ⟨held s (buffer ++ [line]), buffer ++ [line]⟩)
  | take {line : String} {s' : Session} (whole : Whole (buffer ++ [line]))
      (takes : Takes s (buffer ++ [line]) s') : Turn s buffer (.text line) (.goOn ⟨s', []⟩)
  | interrupted {line : String} {program : Program} {before after : String}
      (whole : Whole (buffer ++ [line])) (clean : programOf (buffer ++ [line]) = some program)
      (halts : ((s.talk (buffer ++ [line]).length before).run program).1 = .halted .interrupted) :
      Turn s buffer (.text line)
        (.stop (.ok ()) (((s.talk (buffer ++ [line]).length before).run program).2.talk 0 after))

theorem whole_of_error {e : MalformedNumber}
    (h : Parsed.ofSource ("\n".intercalate lines) = .error e) : Whole lines := by
  intro parsed hparsed
  rw [h] at hparsed
  cases hparsed

theorem whole_iff {parsed : Parsed} (h : Parsed.ofSource ("\n".intercalate lines) = .ok parsed) :
    Whole lines ↔ parsed.errors.any SyntaxError.mentionsEnd = false := by
  have hends : ∀ e : SyntaxError,
      e.mentionsEnd = true ↔ "EOF".toList <:+: e.message.toList := fun e => Text.occursIn_iff
  simp only [Whole, h, Except.ok.injEq, forall_eq', ← hends]
  simp

theorem programOf_of_errors {parsed : Parsed}
    (h : Parsed.ofSource ("\n".intercalate lines) = .ok parsed) (he : parsed.errors ≠ []) :
    programOf lines = none := by
  obtain ⟨program, errors⟩ := parsed
  cases errors with
  | nil => exact absurd rfl he
  | cons e errors => simp only [programOf, h]

theorem turn_runChunk {s : Session} {program : Program} (debug : Bool) (source : String)
    (hw : Whole (buffer ++ [line])) (hc : programOf (buffer ++ [line]) = some program) :
    Turn s buffer (.text line) (runChunk debug (held s (buffer ++ [line])) source program) := by
  obtain ⟨before, hbefore⟩ : ∃ before,
      (if debug then (held s (buffer ++ [line])).write (Report.dump source program)
        else held s (buffer ++ [line])) = s.talk (buffer ++ [line]).length before := by
    cases debug with
    | false => exact ⟨_, rfl⟩
    | true =>
      rw [if_pos rfl, Session.write_eq_talk, held, Session.talk_talk]
      exact ⟨_, rfl⟩
  simp only [runChunk, hbefore]
  rcases hran : (s.talk (buffer ++ [line]).length before).run program with ⟨r, s'⟩
  -- whatever the program comes to, only what is written about it follows
  have htakes (after : String) : Takes s (buffer ++ [line]) (s'.talk 0 after) := by
    have h := @Takes.run s (buffer ++ [line]) program before after hc
    rwa [hran] at h
  have hquiet : Takes s (buffer ++ [line]) s' := by
    rw [← s'.talk_zero]
    exact htakes ""
  cases r with
  | value v => exact .take hw (htakes _)
  | signal t =>
    cases t with
    | failed f => exact .take hw (htakes _)
    | returned v => exact .take hw hquiet
    | control c => exact .take hw hquiet
  | halted e =>
    cases e with
    | interrupted =>
      have h := @Turn.interrupted s buffer line program before "\nInterrupted.\n" hw hc
      rw [hran] at h
      exact h rfl
    | _ => exact .take hw (htakes _)
  | exhausted => exact .take hw hquiet

theorem turn_takeLine (debug : Bool) (s : Session) (buffer : List String) (line : String) :
    Turn s buffer (.text line) (takeLine debug ⟨held s (buffer ++ [line]), buffer⟩ line) := by
  unfold takeLine
  dsimp only
  split
  · rename_i e he
    have hc : programOf (buffer ++ [line]) = none := by simp only [programOf, he]
    refine .take (whole_of_error he) ?_
    rw [Session.write_eq_talk, held, Session.talk_talk]
    exact .refused hc
  · rename_i parsed hparsed
    split
    · rename_i hclean
      obtain ⟨program, errors⟩ := parsed
      obtain rfl : errors = [] := List.isEmpty_iff.mp hclean
      have hc : programOf (buffer ++ [line]) = some program := by simp only [programOf, hparsed]
      exact turn_runChunk debug _ ((whole_iff hparsed).mpr rfl) hc
    · rename_i herrors
      have hc := programOf_of_errors hparsed fun he => herrors (by rw [he]; rfl)
      split
      · rename_i hend
        refine .hold fun hw => ?_
        rw [(whole_iff hparsed).mp hw] at hend
        cases hend
      · rename_i hend
        refine .take ((whole_iff hparsed).mpr (by simpa using hend)) ?_
        rw [Session.write_eq_talk, held, Session.talk_talk]
        exact .refused hc

theorem step_eq (debug : Bool) (s : Session) (buffer : List String) :
    step debug ⟨s, buffer⟩ =
      match (s.machine.world.ask (promptAfter buffer)).1 with
      | .interrupt => .stop (.ok ()) ((s.talk 1 (promptAfter buffer)).write "\nInterrupted.\n")
      | .ended => .stop (.ok ()) ((s.talk 1 (promptAfter buffer)).write "\n")
      | .noText fault => .stop (.error (.undecodable fault)) (s.talk 1 (promptAfter buffer))
      | .text line =>
        if endsSession ⟨s, buffer⟩ line then .stop (.ok ()) (s.talk 1 (promptAfter buffer))
        else takeLine debug ⟨s.talk 1 (promptAfter buffer), buffer⟩ line := by
  obtain ⟨site, scopes, current, fresh, loading, files, _ | ⟨line, rest⟩, output, naps, clock, draws,
    drawn⟩ := s
  all_goals rfl

/-- The lines of a buffer with one more are held when that was read. -/
theorem held_snoc (s : Session) (buffer : List String) (line : String) :
    (held s buffer).talk 1 (promptAfter buffer) = held s (buffer ++ [line]) := by
  rw [held, Session.talk_talk, held, prompts_snoc]
  simp [String.join_append]

theorem turn_step (debug : Bool) (s : Session) (buffer : List String) :
    Turn s buffer ((held s buffer).machine.world.ask (promptAfter buffer)).1
      (step debug ⟨held s buffer, buffer⟩) := by
  rw [step_eq]
  cases ((held s buffer).machine.world.ask (promptAfter buffer)).1 with
  | interrupt =>
    simp only [Session.write_eq_talk, held, Session.talk_talk]
    exact .close .interrupt
  | ended =>
    simp only [Session.write_eq_talk, held, Session.talk_talk]
    exact .close .ended
  | noText fault =>
    simp only [held, Session.talk_talk]
    exact .close (.noText fault)
  | text line =>
    dsimp only
    split
    · rename_i hends
      rw [endsSession, Bool.and_eq_true, List.isEmpty_iff, Bool.or_eq_true, beq_iff_eq,
        beq_iff_eq] at hends
      rw [held, Session.talk_talk]
      exact .close (.word hends.1 hends.2)
    · rw [held_snoc s buffer line]
      exact turn_takeLine debug s buffer line

/-! ### Sessions -/

/-- The chunks are taken in by one session, in their order. -/
inductive TakesAll : Session → List (List String) → Session → Prop
  | done (s : Session) : TakesAll s [] s
  | next {s s' s'' : Session} {chunk : List String} {chunks : List (List String)}
      (takes : Takes s chunk s') (rest : TakesAll s' chunks s'') : TakesAll s (chunk :: chunks) s''

/-- How a session ends, with the last that was shown and read and what it leaves: at a prompt, by
an answer that is no line of a chunk, or with a chunk whose program is interrupted. -/
inductive Ends : List (List String) → List String → List (String × InputLine) →
    Except Halt Unit → Session → Prop
  | atPrompt {chunks : List (List String)} {rest : List String} {answer : InputLine}
      {exit : Except Halt Unit} {s : Session} (closes : Closes rest answer exit) :
      Ends chunks rest [(promptAfter rest, answer)] exit s
  | interrupted {chunks : List (List String)} {chunk : List String} {program : Program}
      {s : Session} {text : String} (clean : programOf chunk = some program)
      (halts : (s.run program).1 = .halted .interrupted) :
      Ends (chunks ++ [chunk]) [] [] (.ok ()) ((s.run program).2.talk 0 text)

theorem Ends.cons {last : List (String × InputLine)} {exit : Except Halt Unit} {s : Session}
    (h : Ends chunks rest last exit s) (chunk : List String) :
    Ends (chunk :: chunks) rest last exit s := by
  cases h with
  | atPrompt closes => exact .atPrompt closes
  | interrupted clean halts =>
    rw [← List.cons_append]
    exact .interrupted clean halts

theorem Cut.cons {chunk : List String} (hc : IsChunk chunk) (h : Cut lines chunks rest) :
    Cut (chunk ++ lines) (chunk :: chunks) rest where
  lines_eq := by rw [← h.lines_eq, List.flatten_cons, List.append_assoc]
  isChunk c hm := by
    rcases List.mem_cons.mp hm with rfl | hm
    · exact hc
    · exact h.isChunk c hm
  unfinished := h.unfinished

theorem Takes.input_suffix {s s' : Session} {chunk : List String} (h : Takes s chunk s') :
    s'.machine.world.input <:+ (held s chunk).machine.world.input := by
  cases h with
  | refused complaints => exact List.suffix_refl _
  | @run program before after clean => exact (s.talk chunk.length before).input_run program

/-- Each line that is read is taken from the input. -/
theorem length_held_snoc {s : Session}
    (h : ((held s buffer).machine.world.ask (promptAfter buffer)).1 = .text line) :
    (held s (buffer ++ [line])).machine.world.input.length <
      (held s buffer).machine.world.input.length := by
  rw [← held_snoc]
  cases hinput : (held s buffer).machine.world.input with
  | nil => simp [World.ask, World.write, hinput] at h
  | cons first rest => simp [Session.talk, hinput]

/-- The lines of a session that holds the start of a chunk are cut into chunks, which it takes in,
until it ends. -/
theorem exists_chunks (debug : Bool) (n : Nat) (s : Session) (buffer : List String)
    (hn : (held s buffer).machine.world.input.length < n) (hb : IsUnfinished buffer) :
    ∃ chunks rest last exit s' text,
      exchangesOf buffer ++ exchanges debug n ⟨held s buffer, buffer⟩ =
        chunks.flatMap exchangesOf ++ exchangesOf rest ++ last ∧
      Cut (chunks.flatten ++ rest) chunks rest ∧ TakesAll s chunks s' ∧
      Ends chunks rest last exit s' ∧
      steps debug n ⟨held s buffer, buffer⟩ =
        (exit, s'.talk (rest.length + last.length) text) := by
  induction n generalizing s buffer with
  | zero => omega
  | succ n ih =>
    have hturn := turn_step debug s buffer
    rw [exchanges, steps]
    dsimp only
    generalize hanswer : ((held s buffer).machine.world.ask (promptAfter buffer)).1 = answer
      at hturn ⊢
    generalize step debug ⟨held s buffer, buffer⟩ = next at hturn ⊢
    cases hturn with
    | close closes =>
      refine ⟨[], buffer, _, _, s, _, ?_, ⟨rfl, by simp, hb⟩, .done s, .atPrompt closes, rfl⟩
      simp
    | @hold line unfinished =>
      have hlt := Nat.lt_of_lt_of_le (length_held_snoc hanswer) (Nat.le_of_lt_succ hn)
      have h := ih s (buffer ++ [line]) hlt (hb.snoc unfinished)
      rwa [exchangesOf_snoc, List.append_assoc, List.singleton_append] at h
    | @take line s' whole takes =>
      have hheld : held s' [] = s' := s'.talk_zero
      have hlt : (held s' []).machine.world.input.length < n := by
        have hread := length_held_snoc hanswer
        have hleft := takes.input_suffix.length_le
        rw [hheld]
        omega
      obtain ⟨chunks, rest, last, exit, s'', text, hexchanges, hcut, htakes, hends, hsteps⟩ :=
        ih s' [] hlt isUnfinished_nil
      rw [hheld] at hexchanges hsteps
      refine ⟨(buffer ++ [line]) :: chunks, rest, last, exit, s'', text, ?_, ?_,
        .next takes htakes, hends.cons _, hsteps⟩
      · have hempty : exchangesOf [] = [] := rfl
        rw [hempty, List.nil_append] at hexchanges
        simp only [hexchanges, List.flatMap_cons, exchangesOf_snoc, List.append_assoc,
          List.cons_append, List.nil_append]
      · rw [List.flatten_cons, List.append_assoc]
        exact hcut.cons (hb.isChunk whole)
    | @interrupted line program before after whole clean halts =>
      have htakes := @Takes.run s (buffer ++ [line]) program before after clean
      refine ⟨[buffer ++ [line]], [], [], .ok (), _, "", ?_, ⟨rfl, ?_, isUnfinished_nil⟩,
        .next htakes (.done _), @Ends.interrupted [] _ _ _ after clean halts, ?_⟩
      · rw [List.flatMap_singleton, exchangesOf_snoc, List.append_nil]
        exact (List.append_nil _).symm
      · rintro chunk hchunk
        obtain rfl := List.mem_singleton.mp hchunk
        exact hb.isChunk whole
      · exact congrArg _ (Session.talk_zero _).symm

/-- The session when the program has introduced itself. -/
def opened (w : World) : Session :=
  Session.start "<stdin>" w.workingDirectory
    (w.write "MeowScript Interpreter - REPL\nType `exit` or `quit` to leave.\n")

end Repl

end MeowLang
