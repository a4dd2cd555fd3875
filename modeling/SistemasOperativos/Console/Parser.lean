import Mathlib.Algebra.Order.Ring.Int
import Mathlib.Data.List.DropRight
import SistemasOperativos.Shared.Pcb

/-!
# The console's parser

`get_code` and `parse_instruction` (`console/src/console.c`), over what they use of the C library
(`getline`, `atoi`) and of the commons library (`string_split`, `string_trim`).
-/

namespace SistemasOperativos

/-! ## Strings -/

/-- `isspace` in the C locale: the blank, and from the tabulator to the carriage return. -/
def isSpace (c : UInt8) : Bool :=
  c = 32 ∨ (9 ≤ c ∧ c ≤ 13)

/-- `isdigit`. -/
def isDigit (c : UInt8) : Bool :=
  48 ≤ c ∧ c ≤ 57

/-- What the routines on C strings see of a line: `getline` puts a NUL behind it, and there may be
one in it. -/
def lineString (line : List UInt8) : CString :=
  line.takeWhile (· ≠ 0)

/-- `string_split(text, " ")`: the text is cut at every single blank. -/
def stringSplit (text : CString) : List CString :=
  text.splitOn 32

/-- `string_trim`. -/
def stringTrim (text : CString) : CString :=
  (text.dropWhile isSpace).rdropWhile isSpace

/-- The number that decimal digits stand for. -/
def digitsValue (digits : CString) : ℕ :=
  digits.foldl (fun value c => 10 * value + (c.toNat - 48)) 0

/-- `strtol` in base 10, of 64 bits: white space and one sign are skipped, the digits that follow
are read, and a number out of range is replaced by the nearest `long`. -/
def strtol (text : CString) : ℤ :=
  let text := text.dropWhile isSpace
  let signed : Bool := text.head? = some 45 ∨ text.head? = some 43
  let digits := if signed then text.tail else text
  let magnitude : ℤ := digitsValue (digits.takeWhile isDigit)
  if text.head? = some 45 then max (-magnitude) (-2 ^ 63) else min magnitude (2 ^ 63 - 1)

/-- `atoi`: the result of `strtol` as an `int`. -/
def atoi (text : CString) : Word :=
  BitVec.ofInt 32 (strtol text)

/-! ## Instructions -/

/-- `parse_instruction`. -/
def parseInstruction (string : List UInt8) : Instruction :=
  match stringSplit (lineString string) with
  | [] => ⟨[], []⟩ -- not reached: a text has at least one part
  | id :: params => ⟨stringTrim id, params.map fun param => atoi (stringTrim param)⟩

/-- The lines that the calls of `getline` return one after the other.  Each has its terminator,
except for a last one that the file does not end. -/
def readLines : List UInt8 → List (List UInt8)
  | [] => []
  | c :: file =>
      if c = 10 then [c] :: readLines file
      else
        match readLines file with
        | [] => [[c]]
        | line :: lines => (c :: line) :: lines

/-- `get_code`: the instruction list of a file. -/
def getCode (file : List UInt8) : List Instruction :=
  (readLines file).map parseInstruction

end SistemasOperativos
