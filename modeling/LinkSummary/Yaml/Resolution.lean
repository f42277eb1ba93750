/-!
# What a plain scalar stands for

A scalar without quotes stands for nothing, a truth value, a number, or else for its own text. A
text that would stand for something else is written in quotes.
-/

namespace LinkSummary.Yaml

def isNull (s : String) : Bool := s ∈ ["null", "Null", "NULL", "~"]

def truth? (s : String) : Option Bool :=
  if s ∈ ["true", "True", "TRUE"] then some true
  else if s ∈ ["false", "False", "FALSE"] then some false
  else none

def digit? (base : Nat) (c : Char) : Option Nat :=
  let value? :=
    if '0' ≤ c ∧ c ≤ '9' then some (c.toNat - '0'.toNat)
    else if 'a' ≤ c ∧ c ≤ 'z' then some (c.toNat - 'a'.toNat + 10)
    else if 'A' ≤ c ∧ c ≤ 'Z' then some (c.toNat - 'A'.toNat + 10)
    else none
  value?.filter (· < base)

/-- The number that digits spell in the given base. -/
def natural? (base : Nat) (cs : List Char) : Option Nat :=
  if cs.isEmpty then none
  else (cs.mapM (digit? base)).map (·.foldl (fun n d => n * base + d) 0)

/-- The base that a mark in front of digits stands for. -/
def radix? : Char → Option Nat
  | 'x' => some 16
  | 'o' => some 8
  | 'b' => some 2
  | _ => none

/-- Two or more digits, the first of them zero; a sign in front makes no difference. -/
def isZeroLed (cs : List Char) : Bool :=
  let digits := match cs with
    | '-' :: cs => cs
    | '+' :: cs => cs
    | cs => cs
  match digits with
  | '0' :: c :: rest => (c :: rest).all Char.isDigit
  | _ => false

/-- The magnitude of an integer: digits, or digits of another base after its mark. -/
def magnitude? : List Char → Option Nat
  | '0' :: mark :: cs =>
    match radix? mark with
    | some base => natural? base cs
    | none => natural? 10 ('0' :: mark :: cs)
  | cs => natural? 10 cs

/-- Whether a text is an integer that 128 bits can hold, with or without a sign. Decimal digits do
not begin with a superfluous zero. -/
def isInteger (cs : List Char) : Bool :=
  !isZeroLed cs &&
    match cs with
    | '-' :: cs => (magnitude? cs).any (· ≤ 1 <<< 127)
    | '+' :: cs => (magnitude? cs).any (· < 1 <<< 128)
    | cs => (magnitude? cs).any (· < 1 <<< 128)

/-! ### Decimal fractions -/

/-- A decimal fraction: its digits as one number, and the power of ten that it is multiplied by. -/
structure Decimal where
  digits : Nat
  exponent : Int
deriving DecidableEq

/-- The number that decimal digits spell; none spell zero. -/
def decimalValue (cs : List Char) : Nat := cs.foldl (fun n c => n * 10 + (c.toNat - '0'.toNat)) 0

/-- The exponent after its mark, with or without a sign. -/
def exponent? (cs : List Char) : Option Int :=
  match cs with
  | '-' :: cs => (natural? 10 cs).map fun n => -(n : Int)
  | '+' :: cs => (natural? 10 cs).map fun n => (n : Int)
  | cs => (natural? 10 cs).map fun n => (n : Int)

/-- The unsigned decimal fraction that a text spells: digits with at most one point among them, at
least one digit, and then perhaps an exponent. -/
def decimal? (cs : List Char) : Option Decimal :=
  let (whole, cs) := cs.span Char.isDigit
  let (fraction, cs) := match cs with
    | '.' :: cs => cs.span Char.isDigit
    | cs => ([], cs)
  if whole.isEmpty && fraction.isEmpty then none
  else
    let digits := decimalValue (whole ++ fraction)
    let shift : Int := -(fraction.length : Int)
    match cs with
    | [] => some ⟨digits, shift⟩
    | c :: cs =>
      if c = 'e' ∨ c = 'E' then (exponent? cs).map fun e => ⟨digits, e + shift⟩ else none

/-- The least number that is not rounded to a finite number in 64-bit binary floating point: half a
unit above the greatest one. -/
def overflowBound : Nat := 1 <<< 1024 - 1 <<< 970

/-- Whether a decimal fraction rounds to a finite number in 64-bit binary floating point. -/
def Decimal.isFinite (d : Decimal) : Bool :=
  if d.digits = 0 then true
  else
    -- the value lies between these powers of ten
    let above : Int := (Nat.toDigits 10 d.digits).length + d.exponent
    if above ≤ 308 then true
    else if above > 310 then false
    else if d.exponent ≥ 0 then d.digits * Nat.pow 10 d.exponent.toNat < overflowBound
    else d.digits < overflowBound * Nat.pow 10 (-d.exponent).toNat

/-- Whether a text is a number in floating point: a finite decimal fraction or a word for one that
is not finite. A text of digits that begins with a superfluous zero is none. -/
def isFloat (cs : List Char) : Bool :=
  !isZeroLed cs &&
    match cs with
    | '-' :: cs => isInfinity cs || (decimal? cs).any (·.isFinite)
    | '+' :: cs => isInfinity cs || (decimal? cs).any (·.isFinite)
    | cs => isInfinity cs || isNotANumber cs || (decimal? cs).any (·.isFinite)
where
  isInfinity (cs : List Char) : Bool := String.ofList cs ∈ [".inf", ".Inf", ".INF"]
  isNotANumber (cs : List Char) : Bool := String.ofList cs ∈ [".nan", ".NaN", ".NAN"]

/-! ### Kinds of scalars -/

/-- What a scalar can stand for but its own text. -/
inductive ScalarKind where
  | nothing
  | truth
  | integer
  | float
deriving DecidableEq

def ScalarKind.spells : ScalarKind → String → Bool
  | nothing, s => isNull s
  | truth, s => (truth? s).isSome
  | integer, s => isInteger s.toList
  | float, s => isFloat s.toList

/-- What a plain scalar stands for, unless it is its own text. -/
def plainKind? (s : String) : Option ScalarKind :=
  if s.isEmpty then some .nothing
  else [.nothing, .truth, .integer, .float].find? (·.spells s)

/-- Whether a plain scalar stands for its own text and looks like nothing else. -/
def isOwnText (s : String) : Bool := (plainKind? s).isNone && !isZeroLed s.toList

end LinkSummary.Yaml
