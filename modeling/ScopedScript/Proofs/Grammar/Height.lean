import ScopedScript.Proofs.Grammar.Completeness
import ScopedScript.Proofs.Run.Rules
import ScopedScript.Proofs.Session
import ScopedScript.Proofs.Tree.Chain

/-!
# How high trees are that are read

The limit on open constructs bounds how deep blocks are around each other, and how deep operands,
arguments and groups are. It does not bound how high a tree is. A chain of operators of one level is
read by a loop, in which nothing stays open, and every operator of the chain stands above the one
before it. The same goes for a chain of accesses.

So the longest path is bounded by the limit if steps along such chains are left out, and unbounded
if they count.
-/

namespace ScopedScript

@[simp] theorem Expr.reach_asStatement (weight : Nat) (e : Expr) :
    e.asStatement.reach weight = e.reach weight := by
  cases e <;> rfl

namespace Grammar

/-! ## Expressions -/

mutual

/-- Six levels of operators lie between two expressions of which one is open inside the other. -/
theorem IsExpression.reach_le {room : Nat} {ts : List Token} {e : Expr} :
    IsExpression room ts e → e.reach 0 ≤ 7 * room
  | .nested h => by
    have hlevel := h.reach_le
    omega

theorem IsLevel.reach_le {level room : Nat} {ts : List Token} {e : Expr} :
    IsLevel level room ts e → e.reach 0 + level ≤ 7 * room + 8
  | .operand h => by
    have hoperand := h.reach_le
    omega
  | .tighter _ h => by
    have hlevel := h.reach_le
    omega
  | .binary _ _ hleft hright => by
    have hl := hleft.reach_le
    have hr := hright.reach_le
    simp only [Expr.reach]
    omega

theorem IsOperand.reach_le {room : Nat} {ts : List Token} {e : Expr} :
    IsOperand room ts e → e.reach 0 ≤ 7 * room + 1
  | .atom h => h.reach_le
  | .unary _ h => by
    have hoperand := h.reach_le
    simp only [Expr.reach]
    omega

theorem IsAtom.reach_le {room : Nat} {ts : List Token} {e : Expr} :
    IsAtom room ts e → e.reach 0 ≤ 7 * room + 1
  | .literal _ | .var _ => Nat.le_add_left _ _
  | .call _ _ h => Nat.succ_le_succ h.reach_le
  | .group _ h _ => Nat.le_succ_of_le h.reach_le
  | .index hbase _ h _ => by
    have hb := hbase.reach_le
    have hp := h.reach_le
    simp only [Expr.reach]
    omega
  | .slice hbase _ hstart _ hstop _ => by
    have hb := hbase.reach_le
    have hs := hstart.reach_le
    have ht := hstop.reach_le
    simp only [Expr.reach]
    omega

theorem IsArguments.reach_le {room : Nat} {ts : List Token} {es : List Expr} :
    IsArguments room ts es → Expr.reachList 0 es ≤ 7 * room
  | .empty _ => Nat.zero_le _
  | .items h hrest _ => Nat.max_le.mpr ⟨h.reach_le, hrest.reach_le⟩

theorem IsMoreArguments.reach_le {room : Nat} {ts : List Token} {es : List Expr} :
    IsMoreArguments room ts es → Expr.reachList 0 es ≤ 7 * room
  | .nil => Nat.zero_le _
  | .cons _ h hrest => Nat.max_le.mpr ⟨h.reach_le, hrest.reach_le⟩

end

/-! ## Declarations -/

theorem IsInitializer.reach_le {room : Nat} {ts : List Token} {value : Option Expr}
    (h : IsInitializer room ts value) : ∀ e, value = some e → e.reach 0 ≤ 7 * room := by
  cases h with
  | absent => exact nofun
  | given _ h =>
    rintro _ ⟨⟩
    exact h.reach_le

theorem IsDeclarator.reach_le {room : Nat} {ts : List Token} {d : Declarator}
    (h : IsDeclarator room ts d) : ∀ e, d.initializer = some e → e.reach 0 ≤ 7 * room := by
  cases h with
  | named _ h => exact h.reach_le

theorem IsVarDecl.reach_le {room : Nat} {ts : List Token} {decl : VarDecl}
    (h : IsVarDecl room ts decl) : Expr.reachList 0 decl.parts ≤ 7 * room := by
  refine Expr.reachList_le.mpr fun e he => ?_
  obtain ⟨d, hd, hinitializer⟩ := List.mem_filterMap.mp he
  cases h with
  | typed _ h hrest =>
    rcases List.mem_cons.mp hd with rfl | hd
    · exact h.reach_le e hinitializer
    · obtain ⟨_, _, hderived⟩ := hrest.exists_item d hd
      exact hderived.reach_le e hinitializer

theorem IsParameter.reach_le {room : Nat} {ts : List Token} {param : Param}
    (h : IsParameter room ts param) : ∀ e, param.fallback = some e → e.reach 0 ≤ 7 * room := by
  cases h with
  | typed _ _ h => exact h.reach_le

theorem IsList.reach_le {room : Nat} {closing : Mark} {ts : List Token} {params : List Param}
    (h : IsList (IsParameter room) closing ts params) :
    Expr.reachList 0 (params.filterMap (·.fallback)) ≤ 7 * room := by
  refine Expr.reachList_le.mpr fun e he => ?_
  obtain ⟨param, hparam, hfallback⟩ := List.mem_filterMap.mp he
  obtain ⟨_, _, hderived⟩ := h.exists_item param hparam
  exact hderived.reach_le e hfallback

theorem IsIterable.reach_le {room : Nat} {ts : List Token} {e : Expr}
    (h : IsIterable room ts e) : e.reach 0 ≤ 7 * room + 1 := by
  cases h with
  | expression h => exact Nat.le_succ_of_le h.reach_le
  | range hstart _ hstop =>
    exact Nat.succ_le_succ (Nat.max_le.mpr ⟨hstart.reach_le, hstop.reach_le⟩)
  | steppedRange hstart _ hstop _ hstep =>
    exact Nat.succ_le_succ
      (Nat.max_le.mpr ⟨hstart.reach_le, Nat.max_le.mpr ⟨hstop.reach_le, hstep.reach_le⟩⟩)

/-! ## Statements -/

mutual

theorem IsStatement.reach_le {room : Nat} {ts : List Token} {s : Statement} :
    IsStatement room ts s → s.reach 0 ≤ 7 * room + 2
  | .empty _ | .breakLoop _ _ | .continueLoop _ _ | .returnNothing _ _ => by
    simp only [Statement.reach, Option.toList_none, Expr.reachList]
    omega
  | .declaration h _ => by
    have hdecl := h.reach_le
    simp only [Statement.reach]
    omega
  | .assignment _ _ h _ => by
    have hvalue := h.reach_le
    simp only [Statement.reach]
    omega
  | .returnValue _ h _ => by
    have hvalue := h.reach_le
    simp only [Statement.reach, Option.toList_some, Expr.reachList]
    omega
  | .expression h _ => by
    have hexpr := h.reach_le
    simp only [Statement.reach, Expr.reach_asStatement]
    omega
  | .conditional _ hcondition hbody hotherwise => by
    have hc := hcondition.reach_le
    have hb := hbody.reach_le
    have ho := hotherwise.reach_le
    simp only [Statement.reach]
    omega
  | .whileLoop _ hcondition hbody => by
    have hc := hcondition.reach_le
    have hb := hbody.reach_le
    simp only [Statement.reach]
    omega
  | .forLoop _ _ _ _ hiterable hbody => by
    have hi := hiterable.reach_le
    have hb := hbody.reach_le
    simp only [Statement.reach, VarDecl.parts, List.filterMap_cons_none, List.filterMap_nil,
      Expr.reachList]
    omega
  | .function _ _ _ hparams hbody => by
    have hp := hparams.reach_le
    have hb := hbody.reach_le
    simp only [Statement.reach, FunctionDecl.reach]
    omega

theorem IsAlternative.reach_le {room : Nat} {ts : List Token} {otherwise : Alternative} :
    IsAlternative room ts otherwise → otherwise.reach 0 ≤ 7 * room + 1
  | .absent => Nat.zero_le _
  | .elseif _ hcondition hbody hrest => by
    have hc := hcondition.reach_le
    have hb := hbody.reach_le
    have hr := hrest.reach_le
    simp only [Alternative.reach]
    omega
  | .otherwise _ hbody => hbody.reach_le

/-- A block takes one place, so its statements have seven nodes less to reach. -/
theorem IsBlock.reach_le {room : Nat} {ts : List Token} {body : List Statement} :
    IsBlock room ts body → Statement.reachList 0 body ≤ 7 * room + 1
  | .nested _ h _ => by
    have hbody := h.reach_le
    omega

theorem IsStatements.reach_le {room : Nat} {ts : List Token} {body : List Statement} :
    IsStatements room ts body → Statement.reachList 0 body ≤ 7 * room + 2
  | .nil => Nat.zero_le _
  | .cons h hrest => Nat.max_le.mpr ⟨h.reach_le, hrest.reach_le⟩

end

/-! ## Blocks -/

mutual

theorem IsStatement.nesting_le {room : Nat} {ts : List Token} {s : Statement} :
    IsStatement room ts s → s.nesting ≤ room
  | .empty _ | .declaration _ _ | .assignment _ _ _ _ | .breakLoop _ _ | .continueLoop _ _
  | .returnNothing _ _ | .returnValue _ _ _ | .expression _ _ => Nat.zero_le _
  | .conditional _ _ hbody hotherwise => Nat.max_le.mpr ⟨hbody.nesting_lt, hotherwise.nesting_le⟩
  | .whileLoop _ _ hbody | .forLoop _ _ _ _ _ hbody | .function _ _ _ _ hbody => hbody.nesting_lt

theorem IsAlternative.nesting_le {room : Nat} {ts : List Token} {otherwise : Alternative} :
    IsAlternative room ts otherwise → otherwise.nesting ≤ room
  | .absent => Nat.zero_le _
  | .elseif _ _ hbody hrest => Nat.max_le.mpr ⟨hbody.nesting_lt, hrest.nesting_le⟩
  | .otherwise _ hbody => hbody.nesting_lt

theorem IsBlock.nesting_lt {room : Nat} {ts : List Token} {body : List Statement} :
    IsBlock room ts body → Statement.nestingList body < room
  | .nested _ h _ => Nat.lt_succ_of_le h.nesting_le

theorem IsStatements.nesting_le {room : Nat} {ts : List Token} {body : List Statement} :
    IsStatements room ts body → Statement.nestingList body ≤ room
  | .nil => Nat.zero_le _
  | .cons h hrest => Nat.max_le.mpr ⟨h.nesting_le, hrest.nesting_le⟩

end

end Grammar

/-! ## Chains -/

namespace Chains

/-- A token that is found nowhere in particular. -/
def loose (kind : TokenKind) : Token := ⟨kind, "", .nowhere⟩

/-- The literal of the number one. -/
def one : Token := loose (.literal (.int 1))

/-- Ones with so many signs of addition between them. -/
def sumTokens : Nat → List Token
  | 0 => [one]
  | n + 1 => sumTokens n ++ [loose (.mark .plus), one]

/-- The sum that is read from them: each addition has the one before it on its left. -/
def sum : Nat → Expr
  | 0 => .literal (.int 1) one
  | n + 1 => .binary (sum n) .add (.literal (.int 1) one) (loose (.mark .plus))

theorem isLevel_one (room : Nat) : Grammar.IsLevel 7 room [one] (.literal (.int 1) one) :=
  .operand (.atom (.literal rfl))

theorem isLevel_sum (room n : Nat) : Grammar.IsLevel 5 room (sumTokens n) (sum n) := by
  induction n with
  | zero => exact (isLevel_one room).loosen (by decide) (by decide)
  | succ n ih => exact .binary rfl rfl ih ((isLevel_one room).loosen (by decide) (by decide))

theorem reach_sum (n : Nat) : (sum n).reach 0 ≤ 2 := by
  induction n with
  | zero => decide
  | succ n ih =>
    simp only [sum, Expr.reach]
    omega

theorem height_sum (n : Nat) : n < (sum n).height := by
  induction n with
  | zero => exact Nat.one_pos
  | succ n ih =>
    simp only [sum, Expr.height, Expr.reach] at ih ⊢
    omega

open Exec in
/-- The rules for a sum nest as deep as it has additions. -/
theorem eval_sum {fuel n : Nat} (h : fuel ≤ n) (m : Machine) :
    eval fuel (sum n) m = .error .outOfFuel m := by
  induction fuel generalizing n with
  | zero => rfl
  | succ fuel ih =>
    obtain ⟨n, rfl⟩ : ∃ less, n = less + 1 := ⟨n - 1, by omega⟩
    have hleft := ih (Nat.le_of_succ_le_succ h)
    simp only [sum, eval_succ, evalStep, binary, value, bind_apply, hleft]

/-- A program that is a sum. -/
def sumProgram (n : Nat) : Program := [.expression (sum n)]

theorem parse_sum (n : Nat) : ∃ ts, parse ts = .ok (sumProgram n) := by
  have hexpression : Grammar.IsExpression nestingLimit (sumTokens n) (sum n) :=
    .nested ((isLevel_sum _ n).loosen (by decide) (by decide))
  have hplain : (sum n).asStatement = sum n := by cases n <;> rfl
  have hend : (loose (.mark .semicolon)).kind = .mark .semicolon := rfl
  have hstatement := Grammar.IsStatement.expression hexpression hend
  rw [hplain] at hstatement
  have hprogram : ∃ ts, Parser.program ts = .ok (sumProgram n, []) :=
    ⟨_, Parser.program_eq_ok_iff.mpr
      ⟨_, loose .endOfInput, rfl, rfl, .cons hstatement .nil⟩⟩
  exact hprogram.imp fun ts h => parse_eq_ok.mpr ⟨[], h⟩

open Exec in
theorem program_sum {fuel n : Nat} (h : fuel ≤ n) (m : Machine) :
    ∃ last, program fuel (sumProgram n) m = .error .outOfFuel last := by
  have hexec : ∀ m, exec fuel (.expression (sum n)) m = .error .outOfFuel m := by
    intro m
    cases fuel with
    | zero => rfl
    | succ fuel =>
      simp only [exec_succ, execStep, discard_eq, bind_apply, eval_sum (Nat.le_of_succ_le h)]
  simp only [program, programBy, sumProgram, block, bind_apply, hexec]
  exact ⟨_, rfl⟩

/-- Programs are read that are higher than any number, although nothing but a chain is in them, and
their runs nest rules deeper than that. -/
theorem exists_higher (bound : Nat) : ∃ ts p, parse ts = .ok p ∧ Program.reach 0 p ≤ 3 ∧
    bound < Program.height p ∧ ∀ m, ∃ last, Exec.program bound p m = .error .outOfFuel last := by
  obtain ⟨ts, hparse⟩ := parse_sum bound
  have hreach : Program.reach 0 (sumProgram bound) ≤ 3 :=
    Nat.max_le.mpr ⟨Nat.succ_le_succ (reach_sum bound), Nat.zero_le _⟩
  have hheight : bound < Program.height (sumProgram bound) :=
    Nat.lt_of_lt_of_le (Nat.lt_succ_of_lt (height_sum bound)) (Nat.le_max_left _ _)
  exact ⟨ts, _, hparse, hreach, hheight, program_sum (Nat.le_refl _)⟩

end Chains

/-! ## What is read -/

/-- What the limit on open constructs bounds. The longest path through a program that was read has
no more than seven nodes for every construct that can be open, and no more blocks are around each
other than that, if steps along chains of operators and accesses are left out. With them it is as
bounded as chains are: no shorter than the longest one, and no longer than that many times the bound
without them. -/
theorem height_bounded_by_chains {ts : List Token} {p : Program} (hparse : parse ts = .ok p) :
    Program.reach 0 p ≤ 7 * nestingLimit + 2 ∧ Program.nesting p ≤ nestingLimit ∧
    Program.chain p ≤ Program.height p ∧
    Program.height p ≤ (Program.chain p + 1) * (7 * nestingLimit + 2) := by
  obtain ⟨_, hprogram⟩ := parse_eq_ok.mp hparse
  obtain ⟨_, _, _, _, hderived⟩ := Parser.program_eq_ok_iff.mp hprogram
  refine ⟨hderived.reach_le, hderived.nesting_le, p.chain_le_height, ?_⟩
  calc Program.height p
      ≤ (Program.chain p + 1) * Program.reach 0 p := p.height_le
    _ ≤ (Program.chain p + 1) * (7 * nestingLimit + 2) :=
      Nat.mul_le_mul_left _ hderived.reach_le

/-- Three accesses in a row, and a comparison of what they yield, make a tree higher by four. -/
theorem height_bounded_by_chains_accesses : ∃ ts p,
    tokenize "if a[0][1][2] == b { c(); }" = .ok ts ∧ parse ts = .ok p ∧
    Program.reach 0 p = 3 ∧ Program.height p = 6 ∧ Program.chain p = 4 ∧
    Program.height p ≤ (Program.chain p + 1) * 450 := by
  obtain ⟨ts, p, htokenize, hparse, hmeasured⟩ := exists_read "if a[0][1][2] == b { c(); }"
    rfl (fun p => Program.reach 0 p = 3 ∧ Program.height p = 6 ∧ Program.chain p = 4)
    (by decide +kernel)
  obtain ⟨hreach, hheight, hchain⟩ := of_decide_eq_true hmeasured
  exact ⟨ts, p, htokenize, hparse, hreach, hheight, hchain,
    (height_bounded_by_chains hparse).2.2.2⟩

/-- No number bounds how high programs are that are read. -/
theorem height_unbounded :
    ¬ ∃ bound, ∀ ts p, parse ts = .ok p → Program.height p ≤ bound := by
  rintro ⟨bound, hbound⟩
  obtain ⟨ts, p, hparse, _, hhigher, _⟩ := Chains.exists_higher bound
  exact absurd (hbound ts p hparse) (Nat.not_le.mpr hhigher)

end ScopedScript
