import RatCalc.Expr.Literal

/-!
# Reading expressions

From the loosest to the tightest binding:

* a sum has terms joined by `+` and `-`;
* a term has factors joined by `*`, `/` and the mark of an exponent;
* a factor is a literal or a sum in parentheses, followed by a power of the base, a factorial and a
  power, each of which may be missing; a minus sign before a factor negates all of it.

Main definitions: `Expr.read`, the expression that a text says, and `Expr.valueOf`, its value.
-/

namespace RatCalc

/-- An expression read at the start of a text, and what follows it, or nothing where reading failed;
the expression then ends in that failure. -/
structure Reading where
  expr : Expr
  rest : Option Text

namespace Reading

open Text Literal

/-- Nothing can be read. -/
def stop (f : Failure) : Reading := ⟨.fault f, none⟩

/-- Goes on with a larger expression, unless reading failed. -/
def andThen (r : Reading) (wrap : Expr → Expr) (next : Expr → Text → Reading) : Reading :=
  match r.rest with
  | some t => next (wrap r.expr) t
  | none => ⟨wrap r.expr, none⟩

/-! ## What follows an operand -/

/-- An exponent, after its mark was read. -/
def raised (d : Dialect) (e : Expr) (wrap : Int → Expr) (t : Text) : Reading :=
  match d.exponent t with
  | .ok (k, rest) => ⟨wrap k, some rest⟩
  | .error f => ⟨.halted e f, none⟩

/-- A power of the base, if its mark and a literal exponent follow. -/
def exponentSuffix (d : Dialect) (e : Expr) (t : Text) : Reading :=
  if d.exponentFollows t then
    raised d e (fun k => .simplified (.scale e k)) (t.drop d.marker.length)
  else ⟨e, some t⟩

/-- A factorial, if it follows. -/
def factorialSuffix (e : Expr) (t : Text) : Reading :=
  match t with
  | '!' :: '!' :: rest => ⟨.factorial true e, some rest⟩
  | '!' :: rest => ⟨.factorial false e, some rest⟩
  | t => ⟨e, some t⟩

/-- A power, if it follows. -/
def powerSuffix (d : Dialect) (e : Expr) (t : Text) : Reading :=
  match t with
  | '*' :: '*' :: rest => raised d e (.productPow e) rest
  | '^' :: rest => raised d e (.pow e) rest
  | t => ⟨e, some t⟩

/-- Everything that may follow an operand. -/
def suffixed (d : Dialect) (e : Expr) (t : Text) : Reading :=
  (exponentSuffix d e t).andThen id fun e t =>
    (factorialSuffix e t).andThen id fun e t => powerSuffix d e t

/-! ## Operands and operators -/

/-- A literal with what follows it. -/
def literal (d : Dialect) (t : Text) : Reading :=
  match d.interval t with
  | .ok ((v, _), rest) => suffixed d (.literal v) rest
  | .error f => stop f

/-- A literal with a bracket. -/
def bracket (d : Dialect) (base contents rest : Text) : Reading :=
  if d.system.isSome then stop (.uncertainty .otherBase)
  else
    match bracketed base contents true with
    | .ok i => suffixed d (.simplified (.literal (.plain (.interval i)))) rest
    | .error f => stop f

/-- The interval that begins with a signed number, if a minus sign begins one; what else a minus
sign stands before is negated as a whole. -/
def signedLiteral? (d : Dialect) (t : Text) : Option Reading :=
  if d.system.isNone && (Dialect.continuedFraction? t).isSome then some (literal d t)
  else if (t.drop 1).head?.any fun c => d.isDigit c || c = '.' then
    match d.interval t with
    | .ok ((v, true), rest) => some (suffixed d (.literal v) rest)
    | .ok ((_, false), _) => none
    | .error f => some (stop f)
  else none

/-- What follows the mark of an exponent that stands as an operator. -/
def afterMarker? (d : Dialect) (t : Text) : Option Text :=
  match t with
  | [] => none
  | c :: rest => if c = Dialect.spacedMark then some rest else after? d.marker t

/-- What follows a slash without the mark for blanks. -/
def afterSlash (t : Text) : Text :=
  match t with
  | [] => []
  | c :: rest => if c = Dialect.divisionMark then rest else t

mutual

/-- A sum. `fuel` bounds the length of the text: three for every character, and three more. -/
def sum (d : Dialect) : (fuel : Nat) → Text → Reading
  | 0, _ => stop (.literal .unexpectedEnd)
  | fuel + 1, t => (term d fuel t).andThen id (sumFrom d fuel)

/-- The terms that follow a sum. -/
def sumFrom (d : Dialect) : (fuel : Nat) → Expr → Text → Reading
  | fuel + 1, e, '+' :: t => (term d fuel t).andThen (.add e) (sumFrom d fuel)
  | fuel + 1, e, '-' :: t => (term d fuel t).andThen (.sub e) (sumFrom d fuel)
  | _, e, t => ⟨.simplified e, some t⟩

/-- A term. -/
def term (d : Dialect) : (fuel : Nat) → Text → Reading
  | 0, _ => stop (.literal .unexpectedEnd)
  | fuel + 1, t => (factor d fuel t).andThen id (termFrom d fuel)

/-- The factors that follow a term. -/
def termFrom (d : Dialect) : (fuel : Nat) → Expr → Text → Reading
  | 0, e, t => ⟨e, some t⟩
  | fuel + 1, e, '*' :: t =>
    (factor d fuel t).andThen (fun b => .simplified (.mul e b)) (termFrom d fuel)
  | fuel + 1, e, '/' :: t =>
    (factor d fuel (afterSlash t)).andThen (fun b => .simplified (.div e b)) (termFrom d fuel)
  | fuel + 1, e, t =>
    match afterMarker? d t with
    | some t => (factor d fuel t).andThen (fun b => .simplified (.scaleBy e b)) (termFrom d fuel)
    | none => ⟨e, some t⟩

/-- A factor. -/
def factor (d : Dialect) : (fuel : Nat) → Text → Reading
  | 0, _ => stop (.literal .unexpectedEnd)
  | _, [] => stop (.literal .unexpectedEnd)
  | fuel + 1, '(' :: t =>
    (sum d fuel t).andThen id fun e rest =>
      match rest with
      | ')' :: rest => suffixed d e rest
      | _ => ⟨.halted e (.literal .unclosedParenthesis), none⟩
  | fuel + 1, c :: t =>
    match bracket? (c :: t) with
    | some (base, contents, rest) => bracket d base contents rest
    | none =>
      if c = '-' then
        match signedLiteral? d (c :: t) with
        | some r => r
        | none => (factor d fuel t).andThen .neg fun e rest => ⟨e, some rest⟩
      else literal d (c :: t)

end

end Reading

namespace Expr

/-- The expression that a prepared text says. -/
def ofPrepared (d : Dialect) (t : Text) : Expr :=
  if t.isEmpty then .fault (.literal .emptyExpression)
  else
    match Reading.sum d (3 * t.length + 3) t with
    | ⟨e, some []⟩ => e
    | ⟨e, some rest⟩ => .halted e (.literal (.trailingToken (String.ofList (d.display rest))))
    | ⟨e, none⟩ => e

/-- The expression that a text says. -/
def read (d : Dialect) (t : Text) : Expr := ofPrepared d (d.prepare t)

/-- The value of an expression text. -/
def valueOf (d : Dialect) (t : Text) : Except Failure Value := (read d t).eval d

end Expr

end RatCalc
