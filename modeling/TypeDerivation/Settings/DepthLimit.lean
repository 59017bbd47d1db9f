import TypeDerivation.Text.Blank

/-!
The text of a depth limit: a decimal number of 32 bits, or a word that stands for no limit.
-/

namespace TypeDerivation.DepthLimit

inductive Error where
  | empty
  | invalidDigit
  | tooLarge
deriving DecidableEq, Inhabited

def Error.message : Error → String
  | empty => "cannot parse integer from empty string"
  | invalidDigit => "invalid digit found in string"
  | tooLarge => "number too large to fit in target type"

def largest : Nat := 0xFFFFFFFF

/-- Reads digits after the number `n`, and stops at the first that is wrong or goes too far. -/
def digits (n : Nat) : List Char → Except Error Nat
  | [] => .ok n
  | c :: rest =>
    if c.isDigit then
      let m := 10 * n + (c.toNat - '0'.toNat)
      if m ≤ largest then digits m rest else .error .tooLarge
    else .error .invalidDigit

/-- A sign may stand before the digits, but not alone. -/
def number : List Char → Except Error Nat
  | [] => .error .empty
  | ['+'] => .error .invalidDigit
  | '+' :: rest => digits 0 rest
  | cs => digits 0 cs

/-- The words for no limit, in any case of the ASCII letters. -/
def isUnbounded (cs : List Char) : Bool :=
  ["none", "unbounded"].any fun word => cs.map Char.toLower = word.toList

def parse (text : String) : Except Error (Option Nat) :=
  let cs := Text.trim text.toList
  if isUnbounded cs then .ok none else (number cs).map some

end TypeDerivation.DepthLimit
