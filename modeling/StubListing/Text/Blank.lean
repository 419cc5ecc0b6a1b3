/-!
# White space

The characters that Unicode counts as white space. Names made of nothing else count as empty,
and times may carry them between their parts.
-/
namespace StubListing.Text

/-- The property White_Space of the Unicode Character Database. -/
def isBlank (c : Char) : Bool :=
  let n := c.toNat
  (9 ≤ n && n ≤ 13) || n == 0x20 || n == 0x85 || n == 0xA0 || n == 0x1680 ||
    (0x2000 ≤ n && n ≤ 0x200A) || n == 0x2028 || n == 0x2029 || n == 0x202F || n == 0x205F ||
    n == 0x3000

/-- What is left once the white space in front is gone. -/
def dropBlank (s : List Char) : List Char := s.dropWhile isBlank

/-- No character that could be seen: the text is empty or all white space. -/
def allBlank (s : String) : Bool := s.toList.all isBlank

end StubListing.Text
