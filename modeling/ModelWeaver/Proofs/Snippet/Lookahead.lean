import ModelWeaver.Proofs.Snippet.Printer
import ModelWeaver.Proofs.Snippet.Reading

/-!
# What the parser sees next

The parser decides by the tokens at the cursor how to go on. This module says
which tokens a printed expression starts with, which tokens end an expression,
and how tightly an operator behind a printed expression may bind without
becoming part of it.
-/

namespace ModelWeaver.Snippet

open Snippet.Parser

/-! ## The start of an expression -/

/-- Tokens that an operand without unary operators starts with. -/
def Token.opensAtom : Token → Bool
  | integer _ | float _ | string _ | trueWord | falseWord | noneWord | ident _ | lParen
  | lBracket | lBrace => true
  | _ => false

def Token.isUnary : Token → Bool
  | minus | plus | notWord => true
  | _ => false

/-- Tokens that an expression starts with; only an operator can put a unary
operator there. -/
def StartsExpr (level : Nat) (tokens : List Token) : Prop :=
  ∃ token more, tokens = token :: more ∧
    (token.opensAtom = true ∨ level < closedLevel ∧ token.isUnary = true)

theorem BinaryOp.level_lt_closedLevel (op : BinaryOp) : op.level < closedLevel := by
  cases op <;> decide

theorem UnaryOp.level_lt_closedLevel (op : UnaryOp) : op.level < closedLevel := by
  cases op <;> decide

theorem Expr.level_le (expr : Expr) : expr.level ≤ closedLevel := by
  cases expr with
  | unary op operand => exact Nat.le_of_lt op.level_lt_closedLevel
  | binary op left right => exact Nat.le_of_lt op.level_lt_closedLevel
  | cond condition yes no => exact Nat.le_of_lt (by decide : choiceLevel < closedLevel)
  | _ => exact Nat.le_refl closedLevel

theorem StartsExpr.guarded {level : Nat} {tokens : List Token} (starts : StartsExpr level tokens)
    {need outer : Nat} (more : List Token) (tight : outer < closedLevel ∨ need = closedLevel) :
    StartsExpr outer (guarded need level tokens ++ more) := by
  rw [Snippet.guarded]
  split
  · exact ⟨_, _, rfl, .inl rfl⟩
  · rename_i high
    obtain ⟨token, rest, rfl, opens | ⟨low, unary⟩⟩ := starts
    · exact ⟨token, rest ++ more, rfl, .inl opens⟩
    · refine ⟨token, rest ++ more, rfl, .inr ⟨?_, unary⟩⟩
      omega

/-- A printed expression starts as an expression of its level does. -/
theorem startsExpr_print (powerLeft : Nat) :
    (expr : Expr) → StartsExpr expr.level (expr.print powerLeft)
  | .int _ | .float _ | .str _ | .none | .var _ _ | .list _ | .tuple _ | .dict _
  | .listComp _ _ | .dictComp _ _ _ => ⟨_, _, rfl, .inl rfl⟩
  | .bool true | .bool false => ⟨_, _, rfl, .inl rfl⟩
  | .unary op operand =>
    ⟨op.token, _, rfl, .inr ⟨op.level_lt_closedLevel, by cases op <;> rfl⟩⟩
  | .binary op left _ =>
    (startsExpr_print powerLeft left).guarded _ (.inl op.level_lt_closedLevel)
  | .cond _ yes _ => (startsExpr_print powerLeft yes).guarded _ (.inl (by decide : 2 < 20))
  | .call callee _ _ => (startsExpr_print powerLeft callee).guarded _ (.inr rfl)
  | .subscript value _ _ | .member value _ _ =>
    (startsExpr_print powerLeft value).guarded _ (.inr rfl)

/-- Tokens that a keyword argument starts with. -/
def StartsKeyword (tokens : List Token) : Prop :=
  ∃ name more, tokens = .ident name :: .eq :: more

private theorem not_startsKeyword_guarded {tokens more : List Token} (need level : Nat)
    (bare : ¬ StartsKeyword (tokens ++ more)) :
    ¬ StartsKeyword (guarded need level tokens ++ more) := by
  rw [guarded]
  split
  · rintro ⟨name, rest, same⟩
    cases same
  · exact bare

/-- No printed expression is taken for a keyword argument. -/
theorem not_startsKeyword_print (powerLeft : Nat) :
    (expr : Expr) → {rest : List Token} → rest.head? ≠ some .eq →
      ¬ StartsKeyword (expr.print powerLeft ++ rest)
  | .int _, _, _ | .float _, _, _ | .str _, _, _ | .none, _, _ | .list _, _, _ | .tuple _, _, _
  | .dict _, _, _ | .listComp _ _, _, _ | .dictComp _ _ _, _, _ | .bool true, _, _
  | .bool false, _, _ | .unary .negation _, _, _ | .unary .identity _, _, _
  | .unary .logicalNot _, _, _ => by
    rintro ⟨name, more, same⟩
    cases same
  | .var _ _, _, follows => by
    rintro ⟨name, more, same⟩
    cases same
    exact follows rfl
  | .binary op left right, _, _ => by
    rw [Expr.print, List.append_assoc]
    apply not_startsKeyword_guarded
    apply not_startsKeyword_print powerLeft left
    cases op <;> simp [BinaryOp.tokens]
  | .cond condition yes no, _, _ => by
    rw [Expr.print, List.append_assoc]
    apply not_startsKeyword_guarded
    apply not_startsKeyword_print powerLeft yes
    simp
  | .call value _ _, _, _ | .subscript value _ _, _, _ | .member value _ _, _, _ => by
    rw [Expr.print, List.append_assoc]
    apply not_startsKeyword_guarded
    apply not_startsKeyword_print powerLeft value
    simp

/-! ## The end of an expression -/

/-- The power of the operator that some tokens start with. -/
def operatorPower? (tokens : List Token) : Option Nat :=
  if tokens.head? == some .ifWord then some choicePower
  else (binaryForm? tokens).map BinaryForm.power

/-- Tokens that go on with an operand: a call, a subscript, an attribute or
another string. -/
def Token.extendsOperand : Token → Bool
  | lParen | lBracket | dot | string _ => true
  | _ => false

/-- What follows an expression leaves it as it is: operators of at least the
given power do not, and nothing extends its last operand. -/
structure Stops (least : Nat) (rest : List Token) : Prop where
  power : ∀ power ∈ operatorPower? rest, power < least
  operand : ∀ token ∈ rest.head?, token.extendsOperand = false

theorem Stops.mono {least least' : Nat} {rest : List Token} (stops : Stops least rest)
    (le : least ≤ least') : Stops least' rest :=
  ⟨fun power mem => Nat.lt_of_lt_of_le (stops.power power mem) le, stops.operand⟩

/-- Tokens behind which no expression goes on. -/
def Token.endsExpr : Token → Bool
  | comma | colon | rParen | rBracket | rBrace | elseWord | forWord => true
  | _ => false

def Token.isCloser : Token → Bool
  | rParen | rBracket | rBrace => true
  | _ => false

theorem Token.endsExpr_of_isCloser {token : Token} (closer : token.isCloser = true) :
    token.endsExpr = true :=
  match token, closer with
  | .rParen, _ | .rBracket, _ | .rBrace, _ => rfl

theorem stops_nil (least : Nat) : Stops least [] :=
  ⟨by simp [operatorPower?, binaryForm?], by simp⟩

theorem stops_of_endsExpr {token : Token} (ends : token.endsExpr = true) (least : Nat)
    (rest : List Token) : Stops least (token :: rest) :=
  match token, ends with
  | .comma, _ | .colon, _ | .rParen, _ | .rBracket, _ | .rBrace, _ | .elseWord, _
  | .forWord, _ =>
    ⟨by simp [operatorPower?, binaryForm?], by simp [Token.extendsOperand]⟩

theorem stops_if {least : Nat} (low : choicePower < least) (rest : List Token) :
    Stops least (.ifWord :: rest) :=
  ⟨by simpa [operatorPower?] using low, by simp [Token.extendsOperand]⟩

theorem binaryForm?_tokens (op : BinaryOp) (rest : List Token) :
    binaryForm? (op.tokens ++ rest) =
      some ⟨op, op.level, op.rightNeed, op.tokens.length⟩ := by
  cases op <;> rfl

theorem stops_operator {op : BinaryOp} {least : Nat} (low : op.level < least)
    (rest : List Token) : Stops least (op.tokens ++ rest) := by
  have noChoice : ((op.tokens ++ rest).head? == some .ifWord) = false := by
    cases op <;> rfl
  constructor
  · rw [operatorPower?, noChoice, binaryForm?_tokens]
    simpa using low
  · cases op <;> simp [BinaryOp.tokens, Token.extendsOperand]

theorem binaryForm?_take_two (tokens : List Token) :
    binaryForm? (tokens.take 2) = binaryForm? tokens := by
  match tokens with
  | [] | [_] => rfl
  | first :: second :: rest =>
    cases first with
    | notWord => cases second <;> rfl
    | _ => rfl

section Level

variable {sub : Nat → Parser Expr} {targets : Parser Target}

/-- The loop over operators ends in front of what stops it. -/
theorem loops_operatorRound_stop {least : Nat} {rest : List Token} (stops : Stops least rest)
    {value : Expr} {good : Expr → Prop} (isGood : good value) :
    Loops (operatorRound sub least) value rest rest True good := by
  have power := stops.power
  rw [operatorPower?] at power
  apply Loops.done
  apply Reads.peekTwo
  rw [show (rest.take 2).head? = rest.head? by cases rest <;> rfl, binaryForm?_take_two]
  split
  · rename_i choice
    rw [if_pos choice] at power
    rw [if_pos (power choicePower rfl)]
    exact Reads.value ⟨value, rfl, isGood⟩
  · rename_i noChoice
    rw [if_neg noChoice] at power
    split
    · exact Reads.value ⟨value, rfl, isGood⟩
    · rename_i form found
      rw [found] at power
      rw [if_pos (power form.power rfl)]
      exact Reads.value ⟨value, rfl, isGood⟩

theorem loops_trailerRound_stop {rest : List Token}
    (ends : ∀ token ∈ rest.head?, token.extendsOperand = false) {value : Expr}
    {good : Expr → Prop} (isGood : good value) :
    Loops (trailerRound sub targets) value rest rest True good := by
  apply Loops.done
  apply Reads.here
  intro span
  apply Reads.peek?
  split
  · exact absurd (ends _ (by assumption)) (by decide)
  · exact absurd (ends _ (by assumption)) (by decide)
  · exact absurd (ends _ (by assumption)) (by decide)
  · exact Reads.value ⟨value, rfl, isGood⟩

end Level

/-! ## The right edge of an expression -/

/-- The power from which on an operator behind an expression is taken for a part
of its last operand. -/
def Expr.grip : Expr → Nat
  | unary op _ => op.level
  | binary op _ _ => op.rightNeed
  | cond _ _ _ => choiceLevel
  | _ => closedLevel

theorem Expr.le_grip {expr : Expr} {need : Nat} (low : need ≤ BinaryOp.power.rightNeed)
    (fits : need ≤ expr.level) : need ≤ expr.grip := by
  cases expr with
  | binary op left right =>
    cases op with
    | power => exact low
    | _ => exact Nat.le_succ_of_le fits
  | _ => exact fits

theorem BinaryOp.level_le_leftNeed {powerLeft : Nat} (above : power.level < powerLeft)
    (op : BinaryOp) : op.level ≤ op.leftNeed powerLeft := by
  cases op with
  | power => exact Nat.le_of_lt above
  | _ => exact Nat.le_refl _

/-- A left operand that needs no parentheses does not take in its operator. -/
theorem Expr.level_lt_grip {powerLeft : Nat} (above : BinaryOp.power.level < powerLeft)
    {op : BinaryOp} {left : Expr} (fits : op.leftNeed powerLeft ≤ left.level) :
    op.level < left.grip := by
  have low : op.level ≤ left.level := Nat.le_trans (op.level_le_leftNeed above) fits
  cases left with
  | unary inner operand =>
    have apart : op.level ≠ inner.level := by cases op <;> cases inner <;> decide
    exact Nat.lt_of_le_of_ne low apart
  | binary inner first second =>
    cases inner with
    | power =>
      rw [Expr.grip]
      cases op with
      | power => exact absurd (Nat.lt_of_lt_of_le above fits) (Nat.lt_irrefl _)
      | _ => decide
    | _ => exact Nat.lt_succ_of_le low
  | cond condition yes no =>
    have higher : ¬ op.level ≤ choiceLevel := by cases op <;> decide
    exact absurd low higher
  | _ => exact op.level_lt_closedLevel

end ModelWeaver.Snippet
