import Mathlib.Algebra.Ring.Int.Defs
import Mathlib.Algebra.GroupWithZero.Nat
import Ftb.Client.Subscription
import Ftb.Lib.Buffer

/-!
# Trimming in a buffer (`ftb_auxil.c`)

`soft_trim` and `trim_string`, index by index: a buffer has a cell for each character of the string
and one for its NUL, and an access outside has no value. An `int` has 32 bits and a `size_t` 64:
a conversion wraps around, and an `int` that overflows has no value. The turns of a loop are counted
by the cells of the buffer, which are enough for them.
-/

open CStr Buffer

namespace Auxil

def nul : Char := '\x00'

/-! ## Integers -/

/-- An expression of type `int`, if it does not overflow. -/
def int (x : Int) : Option Int := if -2 ^ 31 ≤ x ∧ x < 2 ^ 31 then some x else none

/-- `(int) n` for a `size_t`. -/
def toInt (n : Nat) : Int := Int.bmod n (2 ^ 32)

/-- `(size_t) i` for an `int`. -/
def toSize (i : Int) : Nat := (i % 2 ^ 64).toNat

/-- `n - 1` of a `size_t`. -/
def sizePred (n : Nat) : Nat := if n = 0 then 2 ^ 64 - 1 else n - 1

/-! ## `soft_trim` -/

/-- `while (str[i] == ' ' || str[i] == '\t') i++`. -/
def skipBlanks (buf : List Char) : Nat → Int → Option Int
  | 0, _ => none
  | n + 1, i => do
    let c ← get buf i
    if isBlank c then do
      let i ← int (i + 1)
      skipBlanks buf n i
    else pure i

/-- `while (j > 0 && (*e == ' ' || *e == '\t'))`. -/
def dropBlanks (buf : List Char) : Nat → Int → Int → Option (Int × Int)
  | 0, _, _ => none
  | n + 1, j, e =>
    if j > 0 then do
      let c ← get buf e
      if isBlank c then do
        let j ← int (j - 1)
        dropBlanks buf n j (e - 1)
      else pure (j, e)
    else pure (j, e)

/-- `soft_trim` of the string in `buf`: the index that `*str` is left at, and the buffer. -/
def softTrim (buf : List Char) : Option (Int × List Char) := do
  let length := toInt (← strlen nul buf)
  if (← get buf 0) = nul then pure (0, buf)
  else do
    let e := length - 1
    let i ← skipBlanks buf buf.length 0
    let rest ← int (length - i)
    let (j, e) ← dropBlanks buf buf.length rest e
    if j < rest then do
      let buf ← set buf (e + 1) nul
      pure (i, buf)
    else pure (i, buf)

/-! ## `trim_string` -/

/-- `for (j = 0; j < strlen(new_str); j++) new_str[j] = new_str[j + i]`. -/
def shiftLoop (i : Int) : Nat → Int → List Char → Option (Int × List Char)
  | 0, _, _ => none
  | n + 1, j, newStr => do
    if toSize j < (← strlen nul newStr) then do
      let k ← int (j + i)
      let c ← get newStr k
      let newStr ← set newStr j c
      let j ← int (j + 1)
      shiftLoop i n j newStr
    else pure (j, newStr)

/-- `while ((new_str[i] == ' ') || (new_str[i] == '\t')) i--`. -/
def lastBlanks (newStr : List Char) : Nat → Int → Option Int
  | 0, _ => none
  | n + 1, i => do
    let c ← get newStr i
    if isBlank c then do
      let i ← int (i - 1)
      lastBlanks newStr n i
    else pure i

/-- The second half of `trim_string`. -/
def trimEnd (newStr : List Char) : Option (List Char) := do
  let i := toInt (sizePred (← strlen nul newStr))
  let i ← lastBlanks newStr newStr.length i
  if toSize i < sizePred (← strlen nul newStr) then do
    let k ← int (i + 1)
    set newStr k nul
  else pure newStr

/-- `trim_string`: the buffer that it returns. -/
def trimString (str : List Char) : Option (List Char) := do
  let newStr := str.take ((← strlen nul str) + 1)
  let i ← skipBlanks newStr newStr.length 0
  if i > 0 then do
    let (j, newStr) ← shiftLoop i newStr.length 0 newStr
    let newStr ← set newStr j nul
    trimEnd newStr
  else trimEnd newStr

end Auxil
