import Mathlib.Control.Monad.Basic
import MeowLang.Proofs.File.Tree
import MeowLang.Proofs.Signals
import MeowLang.Proofs.Text.Utf8

/-! Native functions take whatever they are given. A call with values of the language comes to
such a value or to a fault, unless it is one of a few that stop the whole run: those that name a
file by a text that no path holds, that read a file or a line whose octets are no text, that wait
for a line and are interrupted, or that sleep for longer than the clock counts. -/
namespace MeowLang

/-- A value of the language, or a fault whose place is still to be found. -/
def Outcome.IsAnswer : Outcome Value → Prop
  | .value v => v.Plain
  | .signal (.failed fault) => fault.line = none ∧ fault.file = none
  | _ => False

theorem Value.Plain.of_madeOf {args : List Value} {v : Value} (hargs : ∀ u ∈ args, u.Plain)
    (hv : MadeOf args v) : v.Plain := by
  intro u hu
  rcases hv u hu with hdata | ⟨w, hw, huw⟩
  · cases u <;> first | rfl | cases hdata
  · exact hargs w hw u huw

theorem Value.plain_string (s : String) : (Value.string s).Plain := by
  intro u hu
  cases hu
  rfl

theorem Value.plain_number (x : Float) : (Value.number x).Plain := by
  intro u hu
  cases hu
  rfl

namespace Native

/-- The calls that stop the whole run. -/
inductive Stops (w : World) : Native → List Value → Prop
  | readUnnamed {path : String} (nul : '\x00' ∈ path.toList) : Stops w .readText [.string path]
  | readNoText {path : String} {octets : List UInt8} (found : w.files.read path = .ok octets)
      (noText : ∀ s, octets ≠ Text.Utf8.encode s) : Stops w .readText [.string path]
  | writeUnnamed {path : String} {v : Value} (nul : '\x00' ∈ path.toList) :
      Stops w .writeText [.string path, v]
  | lineNoText {args : List Value} {fault : Text.Utf8.Fault} {rest : List InputLine}
      (few : args.length ≤ 1) (next : w.input = .noText fault :: rest) : Stops w .kibble args
  | interrupted {args : List Value} {rest : List InputLine} (few : args.length ≤ 1)
      (next : w.input = .interrupt :: rest) : Stops w .kibble args
  | napRefused {x : Float} {fault : NapFault} (finite : x.isFinite = true)
      (refused : w.clock ((if x < 0 then 0 else x) / 1000) = some fault) : Stops w .nap [.number x]

variable {w : World} {args : List Value} {f : Native} {h : Halt}

theorem ofExcept_ne_halted (r : Except Cause Value) : Outcome.ofExcept r ≠ .halted h := by
  cases r <;> exact nofun

theorem stops_of_callReadText (hh : (callReadText args w).1 = .halted h) :
    Stops w .readText args := by
  unfold callReadText at hh
  split at hh
  · rename_i path
    split at hh
    · cases hh
    · cases hh
    · rename_i hopened hread
      rcases FileTree.readText_error hread with
        ⟨hnul, -⟩ | ⟨fault, rfl⟩ | ⟨octets, _, hfound, htext, -⟩
      · exact .readUnnamed hnul
      · exact absurd rfl (hopened path fault)
      · exact .readNoText hfound htext
  · cases hh
  · cases hh

theorem stops_of_callWriteText (hh : (callWriteText args w).1 = .halted h) :
    Stops w .writeText args := by
  unfold callWriteText at hh
  split at hh
  · rename_i path v
    split at hh
    · cases hh
    · cases hh
    · rename_i hopened hwrite
      unfold World.writeText at hwrite
      split at hwrite
      · rename_i hnul
        exact .writeUnnamed (Path.hasNul_iff.mp hnul)
      · split at hwrite <;> cases hwrite
        exact absurd rfl (hopened _ _)
  · cases hh
  · cases hh

theorem ask_fst (w : World) (prompt : String) : (w.ask prompt).1 = w.input.headD .ended := by
  have hinput : (w.write prompt).input = w.input := rfl
  simp only [World.ask, hinput]
  cases w.input <;> rfl

theorem callKibble_fst (few : args.length ≤ 1) :
    (callKibble args w).1 = ofLine (w.input.headD .ended) := by
  match args, few with
  | [], _ => exact congrArg ofLine (ask_fst w _)
  | [v], _ => exact congrArg ofLine (ask_fst w _)

theorem stops_of_callKibble (hh : (callKibble args w).1 = .halted h) : Stops w .kibble args := by
  by_cases few : args.length ≤ 1
  · rw [callKibble_fst few] at hh
    cases hinput : w.input with
    | nil =>
      rw [hinput] at hh
      cases hh
    | cons line rest =>
      rw [hinput, List.headD_cons] at hh
      cases line with
      | text | ended => cases hh
      | noText fault => exact .lineNoText few hinput
      | interrupt => exact .interrupted few hinput
  · match args with
    | [] => exact absurd (Nat.zero_le 1) few
    | [_] => exact absurd (Nat.le_refl 1) few
    | _ :: _ :: _ => cases hh

theorem stops_of_callNap (hh : (callNap args w).1 = .halted h) : Stops w .nap args := by
  unfold callNap at hh
  split at hh
  · split at hh
    · rename_i hfinite
      dsimp only at hh
      split at hh
      · cases hh
      · rename_i hclock
        exact .napRefused hfinite hclock
    · cases hh
  · cases hh
  · cases hh

/-- A call that halts is one of those that stop the run. -/
theorem stops_of_halted (hh : (f.call args w).1 = .halted h) : Stops w f args := by
  cases hp : f.pure? with
  | some g =>
    rw [call_of_pure hp] at hh
    exact absurd hh (ofExcept_ne_halted _)
  | none =>
    cases f <;> try contradiction
    case readText => exact stops_of_callReadText hh
    case writeText => exact stops_of_callWriteText hh
    case kibble => exact stops_of_callKibble hh
    case nap => exact stops_of_callNap hh
    all_goals
      simp only [call, callLog, callFileExists, callBetween, callRandom, callRandint,
        callChoice, callShuffle] at hh
      repeat' split at hh
      all_goals cases hh

theorem halted_of_stops (hs : Stops w f args) : ∃ h, (f.call args w).1 = .halted h := by
  cases hs with
  | @readUnnamed path nul =>
    have hread : w.readText path = .error .nulInPath := if_pos (Path.hasNul_iff.mpr nul)
    exact ⟨.nulInPath, by simp only [call, callReadText, hread]⟩
  | @readNoText path octets found noText =>
    by_cases hnul : '\x00' ∈ path.toList
    · have hread : w.readText path = .error .nulInPath := if_pos (Path.hasNul_iff.mpr hnul)
      exact ⟨.nulInPath, by simp only [call, callReadText, hread]⟩
    · obtain ⟨fault, hread⟩ := FileTree.readText_of_noText hnul found noText
      exact ⟨.undecodable fault, by simp only [call, callReadText, World.readText, hread]⟩
  | @writeUnnamed path v nul =>
    have hwrite : w.writeText path v.display = .error .nulInPath :=
      if_pos (Path.hasNul_iff.mpr nul)
    exact ⟨.nulInPath, by simp only [call, callWriteText, hwrite]⟩
  | lineNoText few next => exact ⟨_, by rw [call, callKibble_fst few, next]; rfl⟩
  | interrupted few next => exact ⟨_, by rw [call, callKibble_fst few, next]; rfl⟩
  | @napRefused x fault finite refused =>
    exact ⟨.sleepless fault, by simp only [call, callNap, finite, if_true, refused]⟩

/-- A world with one file and one line of input, whose only octets begin no character, and with a
clock that counts nanoseconds. -/
def worldOfNoText : World :=
  { World.start ⟨[(["bad"], .file [0xff])], []⟩ (World.linesOf [0xff]) with
    clock := World.clockOfNanoseconds }

theorem stops_at_noText : Stops worldOfNoText .readText [.string "bad"] := by
  have hread : worldOfNoText.files.read "bad" = .ok [0xff] := by decide +kernel
  apply Stops.readNoText hread
  intro s hs
  have hdecode := Text.Utf8.decode_encode s
  rw [← hs] at hdecode
  cases hdecode

theorem stops_at_line : Stops worldOfNoText .kibble [] := .lineNoText (by decide) rfl

theorem stops_at_longNap : Stops worldOfNoText .nap [.number 1e13] :=
  @Stops.napRefused _ _ .tooLong (by decide) (by decide)

theorem not_stops_at_shortNap : ¬ Stops worldOfNoText .nap [.number 5] := by
  intro hs
  cases hs with
  | napRefused _ refused =>
    have hclock : worldOfNoText.clock ((if (5 : Float) < 0 then 0 else 5) / 1000) = none := by
      decide
    rw [hclock] at refused
    cases refused

end Native

end MeowLang
