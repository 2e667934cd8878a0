import FlowTypes.Text.Alphabetic
import FlowTypes.Text.Numeric
import FlowTypes.Text.Uppercase
import FlowTypes.Text.Combining
import FlowTypes.Text.Hidden

namespace FlowTypes.Text

def inRanges (ranges : List (Nat × Nat)) (c : Char) : Bool :=
  ranges.any fun r ↦ r.1 ≤ c.toNat && c.toNat ≤ r.2

def isAscii (c : Char) : Bool := c.toNat < 128

def isAlphabetic (c : Char) : Bool := c.isAlpha || !isAscii c && inRanges alphabeticRanges c

def isNumeric (c : Char) : Bool := c.isDigit || !isAscii c && inRanges numericRanges c

def isUppercase (c : Char) : Bool := c.isUpper || !isAscii c && inRanges uppercaseRanges c

def isCombining (c : Char) : Bool := !isAscii c && inRanges combiningRanges c

def isHidden (c : Char) : Bool :=
  c.toNat < 32 || c.toNat == 127 || !isAscii c && inRanges hiddenRanges c

def blankRanges : List (Nat × Nat) :=
  [(0x09, 0x0d), (0x20, 0x20), (0x85, 0x85), (0xa0, 0xa0), (0x1680, 0x1680), (0x2000, 0x200a),
    (0x2028, 0x2029), (0x202f, 0x202f), (0x205f, 0x205f), (0x3000, 0x3000)]

def isBlank (c : Char) : Bool := inRanges blankRanges c

def startsWord (c : Char) : Bool := isAlphabetic c || c == '_'

def continuesWord (c : Char) : Bool := isAlphabetic c || isNumeric c || c == '_'

def isWord : List Char → Bool
  | [] => false
  | c :: cs => startsWord c && cs.all continuesWord

def digitValue (c : Char) : Nat := c.toNat - 48

def digitsValue (digits : List Char) : Nat := digits.foldl (fun n c ↦ n * 10 + digitValue c) 0

end FlowTypes.Text
