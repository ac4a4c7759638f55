import Statechart.Expr.Arithmetic
import Statechart.Text.CharClass

/-!
# Reading expressions

From loose to tight the levels are: or, and, `!`, one comparison, sums, products, the minus sign,
and the primaries. Each reader is given a bound on the length of its text; a text in parentheses
is shorter than the bound, so the levels close into one recursion on it. A reader returns the
expression together with the text after it, which is shorter than the text read.
-/
namespace Statechart.Expr

open Text

/-- Why a text is no expression. -/
inductive ReadError where
  | empty
  | unexpectedInput (position : Nat) (rest : List Char)
  | unclosedParenthesis
  | unexpectedCharacter (c : Char)
  | unexpectedEnd
  | invalidPath (path : List Char)
  | unknownEventField (word : List Char)
  | unknownIdentifier (word : List Char)
  | unterminatedString
  | invalidNumber (digits : List Char)
  deriving DecidableEq

def ReadError.message : ReadError → String
  | empty => "empty expression"
  | unexpectedInput position rest =>
    s!"unexpected input at position {position}: '" ++ String.ofList rest ++ "'"
  | unclosedParenthesis => "expected ')'"
  | unexpectedCharacter c => "unexpected character '" ++ c.toString ++ "'"
  | unexpectedEnd => "unexpected end of expression"
  | invalidPath path => "invalid field path '" ++ String.ofList path ++ "'"
  | unknownEventField word =>
    "unknown event field '" ++ String.ofList word ++ "': use 'event.name' or 'event.data'"
  | unknownIdentifier word =>
    "unknown identifier '" ++ String.ofList word ++
      "': fields must start with 'ctx.' or 'event.'"
  | unterminatedString => "unterminated string"
  | invalidNumber digits => "invalid number: '" ++ String.ofList digits ++ "'"

/-- An expression read from the front of a text, and the text after it. -/
structure Parsed (cs : List Char) where
  expr : Expr
  rest : List Char
  shorter : rest.length < cs.length

abbrev Result (cs : List Char) := Except ReadError (Parsed cs)

/-- A reader of the texts that are no longer than a bound. -/
def Reader (n : Nat) := (cs : List Char) → cs.length ≤ n → Result cs

/-- A reader of the texts that are shorter than a bound. -/
def Inner (n : Nat) := (cs : List Char) → cs.length < n → Result cs

def Inner.weaken {n : Nat} (inner : Inner (n + 1)) : Inner n :=
  fun cs h => inner cs (Nat.lt_succ_of_lt h)

/-- A result for a text without the blanks before it is one for the text. -/
def Parsed.ofDropBlank {cs : List Char} (p : Parsed (dropBlank cs)) : Parsed cs :=
  ⟨p.expr, p.rest, Nat.lt_of_lt_of_le p.shorter (length_dropBlank_le cs)⟩

def isWordChar (c : Char) : Bool := isAlphanumeric c || c == '_' || c == '.'

def isWordStart (c : Char) : Bool := isAlphabetic c || c == '_'

/-- Paths are segments between points, none of them empty. -/
def fieldPath? (path : List Char) : Except ReadError String :=
  if path.isEmpty ∨ (splitOn '.' path).any List.isEmpty then .error (.invalidPath path)
  else .ok (String.ofList path)

/-- The expression that a whole word stands for. -/
def ofWord (word : List Char) : Except ReadError Expr :=
  if word = "true".toList then .ok (literal (.bool true))
  else if word = "false".toList then .ok (literal (.bool false))
  else if word = "null".toList then .ok (literal .null)
  else if word = "event.name".toList then .ok eventName
  else if word = "event.data".toList then .ok (eventData "")
  else
    match dropWord? "ctx.".toList word, dropWord? "event.data.".toList word with
    | some path, _ => (fieldPath? path).map context
    | none, some path => (fieldPath? path).map eventData
    | none, none =>
      if (dropWord? "event".toList word).isSome then .error (.unknownEventField word)
      else .error (.unknownIdentifier word)

/-- Reads a string after its opening quote. A backslash stands before a newline's `n`, a
tab's `t`, or any character meant as itself. -/
def scanString (done : List Char) : List Char → Option (List Char × List Char)
  | [] => none
  | '"' :: rest => some (done.reverse, rest)
  | ['\\'] => none
  | '\\' :: c :: rest =>
    scanString ((if c = 'n' then '\n' else if c = 't' then '\t' else c) :: done) rest
  | c :: rest => scanString (c :: done) rest

theorem length_of_scanString {done cs : List Char} {s rest : List Char}
    (h : scanString done cs = some (s, rest)) : rest.length < cs.length := by
  fun_induction scanString done cs <;> simp_all <;> omega

/-- Splits digits, and one point with the digits after it, off the front of a text. -/
def scanNumber (cs : List Char) : List Char × Option (List Char) × List Char :=
  let whole := cs.takeWhile Char.isDigit
  match cs.dropWhile Char.isDigit with
  | '.' :: rest => (whole, some (rest.takeWhile Char.isDigit), rest.dropWhile Char.isDigit)
  | rest => (whole, none, rest)

theorem length_scanNumber_le (cs : List Char) :
    (scanNumber cs).2.2.length ≤ (cs.dropWhile Char.isDigit).length := by
  unfold scanNumber
  split
  · next rest h =>
    rw [h]
    exact Nat.le_trans (length_dropWhile_le _ _) (Nat.le_succ _)
  · exact Nat.le_refl _

/-- Digits without a point are a whole number when it fits 64 bits with a sign; all others are
the nearest double. -/
def ofDigits (whole : List Char) (fraction : Option (List Char)) : Except ReadError Expr :=
  let n := Nat.ofDigitChars 10 whole 0
  if h : fraction.isNone ∧ n < 0x8000000000000000 then
    .ok (literal (.num (.int n (Number.inRange_of_lt h.2))))
  else
    let tail := fraction.getD []
    let decimal : Decimal := ⟨Nat.ofDigitChars 10 (whole ++ tail) 0, -(tail.length : Int)⟩
    match decimal.toDouble? false with
    | some d => .ok (literal (.num (.double d)))
    | none =>
      .error (.invalidNumber (whole ++ if fraction.isSome then '.' :: tail else []))

/-- Reads a primary whose first character is not blank. -/
def primaryAt {n : Nat} (inner : Inner n) : Reader n
  | [], _ => .error .unexpectedEnd
  | c :: cs, h =>
    if c = '(' then
      match inner cs (Nat.lt_of_succ_le h) with
      | .error e => .error e
      | .ok p =>
        match _h : dropBlank p.rest with
        | ')' :: rest =>
          .ok ⟨p.expr, rest, by
            have := length_dropBlank_le p.rest
            have := p.shorter
            simp_all
            omega⟩
        | _ => .error .unclosedParenthesis
    else if c = '"' then
      match hs : scanString [] cs with
      | some (s, rest) =>
        .ok ⟨literal (.str (String.ofList s)), rest,
          Nat.lt_succ_of_lt (length_of_scanString hs)⟩
      | none => .error .unterminatedString
    else if hd : c.isDigit then
      let scanned := scanNumber (c :: cs)
      match ofDigits scanned.1 scanned.2.1 with
      | .error e => .error e
      | .ok e =>
        .ok ⟨e, scanned.2.2, by
          have := length_scanNumber_le (c :: cs)
          rw [List.dropWhile_cons_of_pos hd] at this
          exact Nat.lt_succ_of_le (Nat.le_trans this (length_dropWhile_le _ _))⟩
    else if isWordStart c then
      match ofWord (c :: cs.takeWhile isWordChar) with
      | .error e => .error e
      | .ok e => .ok ⟨e, cs.dropWhile isWordChar, Nat.lt_succ_of_le (length_dropWhile_le _ _)⟩
    else .error (.unexpectedCharacter c)

def primary {n : Nat} (inner : Inner n) : Reader n := fun cs h =>
  (primaryAt inner (dropBlank cs) (Nat.le_trans (length_dropBlank_le cs) h)).map
    Parsed.ofDropBlank

/-- A minus sign before a number literal is part of it. -/
def negated : Expr → Expr
  | literal (.num n) => literal n.negate
  | e => neg e

/-- Reads minus signs and a primary. -/
def negation : (n : Nat) → Inner n → Reader n
  | 0, inner => primary inner
  | n + 1, inner => fun cs h =>
    match _h : dropBlank cs with
    | '-' :: rest =>
      have shorter : rest.length < cs.length := by
        have := length_dropBlank_le cs
        rw [_h, List.length_cons] at this
        omega
      match negation n inner.weaken rest (by omega) with
      | .error e => .error e
      | .ok p => .ok ⟨negated p.expr, p.rest, Nat.lt_trans p.shorter shorter⟩
    | _ => primary inner cs h

/-- An operator between two operands: its symbol and the tree that it builds. -/
structure Operator where
  first : Char
  more : List Char
  build : Expr → Expr → Expr

/-- The first operator of a list whose symbol starts the text, and the text after it. -/
def Operator.match? : List Operator → List Char → Option (Operator × List Char)
  | [], _ => none
  | op :: ops, cs =>
    match dropWord? (op.first :: op.more) cs with
    | some rest => some (op, rest)
    | none => match? ops cs

theorem Operator.length_of_match? {ops : List Operator} {cs rest : List Char} {op : Operator}
    (h : match? ops cs = some (op, rest)) : rest.length < cs.length := by
  induction ops with
  | nil => simp [match?] at h
  | cons o os ih =>
    unfold match? at h
    split at h
    · next r hr =>
      have := length_of_dropWord? hr
      simp_all
      omega
    · exact ih h

def Operator.ofBinary (op : BinaryOp) : Operator :=
  match op.symbol with
  | [] => ⟨' ', [], binary op⟩
  | c :: cs => ⟨c, cs, binary op⟩

def orOperators : List Operator := [⟨'|', ['|'], Expr.or⟩]

def andOperators : List Operator := [⟨'&', ['&'], Expr.and⟩]

def sumOperators : List Operator := [.ofBinary .add, .ofBinary .sub]

def productOperators : List Operator := [.ofBinary .mul, .ofBinary .div, .ofBinary .rem]

/-- Longer symbols come before the shorter ones that start them. -/
def comparisons : List Operator :=
  [.ofBinary .eq, .ofBinary .ne, .ofBinary .ge, .ofBinary .le, .ofBinary .gt, .ofBinary .lt]

/-- What follows a first operand: operators and operands, grouped to the left. -/
def chainRest {n : Nat} (operand : Reader n) (ops : List Operator) :
    (m : Nat) → m ≤ n → (left : Expr) → (cs : List Char) → cs.length ≤ m →
      Except ReadError { p : Expr × List Char // p.2.length ≤ cs.length }
  | 0, _, left, cs, _ => .ok ⟨(left, cs), Nat.le_refl _⟩
  | m + 1, hm, left, cs, h =>
    match hop : Operator.match? ops (dropBlank cs) with
    | none => .ok ⟨(left, cs), Nat.le_refl _⟩
    | some (op, after) =>
      have shorter : after.length < cs.length :=
        Nat.lt_of_lt_of_le (Operator.length_of_match? hop) (length_dropBlank_le cs)
      match operand after (by omega) with
      | .error e => .error e
      | .ok p =>
        have := p.shorter
        match chainRest operand ops m (by omega) (op.build left p.expr) p.rest (by omega) with
        | .error e => .error e
        | .ok ⟨q, hq⟩ => .ok ⟨q, by omega⟩

/-- Operands of one level, joined by its operators. -/
def chain {n : Nat} (operand : Reader n) (ops : List Operator) : Reader n := fun cs h =>
  match operand cs h with
  | .error e => .error e
  | .ok p =>
    have := p.shorter
    match chainRest operand ops n (Nat.le_refl n) p.expr p.rest (by omega) with
    | .error e => .error e
    | .ok ⟨q, hq⟩ => .ok ⟨q.1, q.2, by omega⟩

def product {n : Nat} (inner : Inner n) : Reader n := chain (negation n inner) productOperators

def sum {n : Nat} (inner : Inner n) : Reader n := chain (product inner) sumOperators

/-- Reads a sum, or two of them compared once. -/
def comparison {n : Nat} (inner : Inner n) : Reader n := fun cs h =>
  match sum inner cs h with
  | .error e => .error e
  | .ok p =>
    match hop : Operator.match? comparisons (dropBlank p.rest) with
    | none => .ok p
    | some (op, after) =>
      have shorter : after.length < cs.length :=
        Nat.lt_trans (Nat.lt_of_lt_of_le (Operator.length_of_match? hop)
          (length_dropBlank_le p.rest)) p.shorter
      match sum inner after (by omega) with
      | .error e => .error e
      | .ok q => .ok ⟨op.build p.expr q.expr, q.rest, Nat.lt_trans q.shorter shorter⟩

/-- Reads exclamation marks and a comparison. A mark before an equals sign is no negation. -/
def unary : (n : Nat) → Inner n → Reader n
  | 0, inner => comparison inner
  | n + 1, inner => fun cs h =>
    match _h : dropBlank cs with
    | '!' :: rest =>
      if rest.head? = some '=' then comparison inner cs h
      else
        have shorter : rest.length < cs.length := by
          have := length_dropBlank_le cs
          rw [_h, List.length_cons] at this
          omega
        match unary n inner.weaken rest (by omega) with
        | .error e => .error e
        | .ok p => .ok ⟨not p.expr, p.rest, Nat.lt_trans p.shorter shorter⟩
    | _ => comparison inner cs h

def conjunction {n : Nat} (inner : Inner n) : Reader n := chain (unary n inner) andOperators

def disjunction {n : Nat} (inner : Inner n) : Reader n := chain (conjunction inner) orOperators

/-- Reads an expression at the front of a text no longer than the bound. -/
def expression : (n : Nat) → Reader n
  | 0 => disjunction fun _ h => absurd h (Nat.not_lt_zero _)
  | n + 1 => disjunction fun cs h => expression n cs (Nat.le_of_lt_succ h)

/-- Reads a text that has been trimmed. -/
def readTrimmed (cs : List Char) : Except ReadError Expr :=
  if cs.isEmpty then .error .empty
  else
    match expression cs.length cs (Nat.le_refl _) with
    | .error e => .error e
    | .ok p =>
      let rest := dropBlank p.rest
      if rest.isEmpty then .ok p.expr
      else .error (.unexpectedInput (byteLength cs - byteLength rest) rest)

/-- Reads a whole text as one expression, blanks around it apart. -/
def read (source : String) : Except ReadError Expr := readTrimmed (trimChars source.toList)

end Statechart.Expr
