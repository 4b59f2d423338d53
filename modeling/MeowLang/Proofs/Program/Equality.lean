import Mathlib.Control.Monad.Basic
import MeowLang.Program.Grammar

/-! It can be decided whether two programs are the same. Nodes hold lists of nodes, so the test of
two nodes is defined together with those of the lists. -/
namespace MeowLang

namespace Outline

mutual

def same : Outline → Outline → Bool
  | nothing, nothing => true
  | truth b, truth c => b = c
  | integer n, integer k => n = k
  | number x, number y => x = y
  | text s, text t => s = t
  | operator op, operator op' => op = op'
  | record os, record ps | sequence os, sequence ps => sameAll os ps
  | _, _ => false
termination_by structural o => o

def sameAll : List Outline → List Outline → Bool
  | [], [] => true
  | o :: os, p :: ps => same o p ∧ sameAll os ps
  | _, _ => false
termination_by structural os => os

end

mutual

theorem same_iff : ∀ o p : Outline, same o p = true ↔ o = p
  | nothing, p | truth _, p | integer _, p | number _, p | text _, p | operator _, p => by
    cases p <;> simp [same]
  | record os, p | sequence os, p => by
    cases p <;> simp [same, sameAll_iff os]
termination_by structural o => o

theorem sameAll_iff : ∀ os ps : List Outline, sameAll os ps = true ↔ os = ps
  | [], ps => by cases ps <;> simp [sameAll]
  | o :: os, ps => by cases ps <;> simp [sameAll, same_iff o, sameAll_iff os]
termination_by structural os => os

end

instance : DecidableEq Outline := fun o p => decidable_of_iff _ (same_iff o p)

end Outline

mutual

def Expr.same : Expr → Expr → Bool
  | .ident x l, .ident y k => x = y ∧ l = k
  | .number x l, .number y k => x = y ∧ l = k
  | .string s l, .string t k => s = t ∧ l = k
  | .bool b l, .bool c k => b = c ∧ l = k
  | .array es l, .array fs k => Expr.sameAll es fs ∧ l = k
  | .object ps l, .object qs k => Expr.sameEntries ps qs ∧ l = k
  | .prefixed op e l, .prefixed op' f k => op = op' ∧ Expr.same e f ∧ l = k
  | .between op a b l, .between op' c d k =>
    op = op' ∧ Expr.same a c ∧ Expr.same b d ∧ l = k
  | .cond e ss none l, .cond f ts none k => Expr.same e f ∧ Stmt.sameAll ss ts ∧ l = k
  | .cond e ss (some ss') l, .cond f ts (some ts') k =>
    Expr.same e f ∧ Stmt.sameAll ss ts ∧ Stmt.sameAll ss' ts' ∧ l = k
  | .function xs ss l, .function ys ts k => xs = ys ∧ Stmt.sameAll ss ts ∧ l = k
  | .call e es l, .call f fs k => Expr.same e f ∧ Expr.sameAll es fs ∧ l = k
  | .index a b l, .index c d k => Expr.same a c ∧ Expr.same b d ∧ l = k
  | .kindOf e l, .kindOf f k => Expr.same e f ∧ l = k
  | .loop ss l, .loop ts k => Stmt.sameAll ss ts ∧ l = k
  | .foreign o, .foreign p => o = p
  | _, _ => false
termination_by structural e => e

def Expr.sameAll : List Expr → List Expr → Bool
  | [], [] => true
  | e :: es, f :: fs => Expr.same e f ∧ Expr.sameAll es fs
  | _, _ => false
termination_by structural es => es

def Expr.sameEntries : List (Expr × Expr) → List (Expr × Expr) → Bool
  | [], [] => true
  | (a, b) :: ps, (c, d) :: qs => (Expr.same a c ∧ Expr.same b d) ∧ Expr.sameEntries ps qs
  | _, _ => false
termination_by structural ps => ps

def Stmt.same : Stmt → Stmt → Bool
  | .bind x e l, .bind y f k | .rebind x e l, .rebind y f k => x = y ∧ Expr.same e f ∧ l = k
  | .giveBack none l, .giveBack none k => l = k
  | .giveBack (some e) l, .giveBack (some f) k => Expr.same e f ∧ l = k
  | .expr e l, .expr f k => Expr.same e f ∧ l = k
  | .load x l, .load y k => x = y ∧ l = k
  | .leave l, .leave k | .again l, .again k => l = k
  | .foreign o, .foreign p => o = p
  | _, _ => false
termination_by structural s => s

def Stmt.sameAll : List Stmt → List Stmt → Bool
  | [], [] => true
  | s :: ss, t :: ts => Stmt.same s t ∧ Stmt.sameAll ss ts
  | _, _ => false
termination_by structural ss => ss

end

mutual

theorem Expr.same_iff : ∀ e f : Expr, Expr.same e f = true ↔ e = f
  | .ident _ _, f | .number _ _, f | .string _ _, f | .bool _ _, f | .foreign _, f => by
    cases f <;> simp [Expr.same]
  | .array es _, f => by cases f <;> simp [Expr.same, Expr.sameAll_iff es]
  | .object ps _, f => by cases f <;> simp [Expr.same, Expr.sameEntries_iff ps]
  | .prefixed _ e _, f => by cases f <;> simp [Expr.same, Expr.same_iff e]
  | .between _ a b _, f => by
    cases f <;> simp [Expr.same, Expr.same_iff a, Expr.same_iff b]
  | .cond e ss none _, f => by
    cases f with
    | cond _ _ no _ => cases no <;> simp [Expr.same, Expr.same_iff e, Stmt.sameAll_iff ss]
    | _ => simp [Expr.same]
  | .cond e ss (some ss') _, f => by
    cases f with
    | cond _ _ no _ =>
      cases no <;>
        simp [Expr.same, Expr.same_iff e, Stmt.sameAll_iff ss, Stmt.sameAll_iff ss']
    | _ => simp [Expr.same]
  | .function _ ss _, f => by cases f <;> simp [Expr.same, Stmt.sameAll_iff ss]
  | .call e es _, f => by
    cases f <;> simp [Expr.same, Expr.same_iff e, Expr.sameAll_iff es]
  | .index a b _, f => by
    cases f <;> simp [Expr.same, Expr.same_iff a, Expr.same_iff b]
  | .kindOf e _, f => by cases f <;> simp [Expr.same, Expr.same_iff e]
  | .loop ss _, f => by cases f <;> simp [Expr.same, Stmt.sameAll_iff ss]
termination_by structural e => e

theorem Expr.sameAll_iff : ∀ es fs : List Expr, Expr.sameAll es fs = true ↔ es = fs
  | [], fs => by cases fs <;> simp [Expr.sameAll]
  | e :: es, fs => by cases fs <;> simp [Expr.sameAll, Expr.same_iff e, Expr.sameAll_iff es]
termination_by structural es => es

theorem Expr.sameEntries_iff :
    ∀ ps qs : List (Expr × Expr), Expr.sameEntries ps qs = true ↔ ps = qs
  | [], qs => by cases qs <;> simp [Expr.sameEntries]
  | (a, b) :: ps, qs => by
    cases qs <;>
      simp [Expr.sameEntries, Expr.same_iff a, Expr.same_iff b, Expr.sameEntries_iff ps,
        Prod.ext_iff]
termination_by structural ps => ps

theorem Stmt.same_iff : ∀ s t : Stmt, Stmt.same s t = true ↔ s = t
  | .load _ _, t | .leave _, t | .again _, t | .foreign _, t => by cases t <;> simp [Stmt.same]
  | .bind _ e _, t | .rebind _ e _, t => by
    cases t <;> simp [Stmt.same, Expr.same_iff e]
  | .giveBack none _, t => by
    cases t with
    | giveBack value _ => cases value <;> simp [Stmt.same]
    | _ => simp [Stmt.same]
  | .giveBack (some e) _, t => by
    cases t with
    | giveBack value _ => cases value <;> simp [Stmt.same, Expr.same_iff e]
    | _ => simp [Stmt.same]
  | .expr e _, t => by cases t <;> simp [Stmt.same, Expr.same_iff e]
termination_by structural s => s

theorem Stmt.sameAll_iff : ∀ ss ts : List Stmt, Stmt.sameAll ss ts = true ↔ ss = ts
  | [], ts => by cases ts <;> simp [Stmt.sameAll]
  | s :: ss, ts => by cases ts <;> simp [Stmt.sameAll, Stmt.same_iff s, Stmt.sameAll_iff ss]
termination_by structural ss => ss

end

instance : DecidableEq Expr := fun e f => decidable_of_iff _ (Expr.same_iff e f)

instance : DecidableEq Stmt := fun s t => decidable_of_iff _ (Stmt.same_iff s t)

deriving instance DecidableEq for Parsed

end MeowLang
