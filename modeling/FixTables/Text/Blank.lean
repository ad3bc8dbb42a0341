namespace FixTables

/-- The characters with the White_Space property of Unicode. -/
def isBlank (c : Char) : Bool :=
  let n := c.toNat
  (0x09 ≤ n && n ≤ 0x0d) || n == 0x20 || n == 0x85 || n == 0xa0 || n == 0x1680 ||
    (0x2000 ≤ n && n ≤ 0x200a) || n == 0x2028 || n == 0x2029 || n == 0x202f || n == 0x205f ||
    n == 0x3000

/-- Drops what stands at the end of a list and satisfies `p`. -/
def dropTrailing (p : α → Bool) (xs : List α) : List α :=
  (xs.reverse.dropWhile p).reverse

/-- Removes the blanks at both ends. -/
def trimBlanks (s : String) : String :=
  String.ofList (dropTrailing isBlank (s.toList.dropWhile isBlank))

end FixTables
