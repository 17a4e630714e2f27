namespace ScriptSpans.Text

/-- Tabs, line breaks, the four separators before the space, and the spaces of Unicode. -/
def isBlank (c : Char) : Bool :=
  let n := c.toNat
  (0x09 ≤ n && n ≤ 0x0d) || (0x1c ≤ n && n ≤ 0x20) || n == 0x85 || n == 0xa0 || n == 0x1680 ||
    (0x2000 ≤ n && n ≤ 0x200a) || n == 0x2028 || n == 0x2029 || n == 0x202f || n == 0x205f ||
    n == 0x3000

def trimRight (text : List Char) : List Char :=
  (text.reverse.dropWhile isBlank).reverse

def trimList (text : List Char) : List Char :=
  trimRight (text.dropWhile isBlank)

def trim (text : String) : String :=
  String.ofList (trimList text.toList)

end ScriptSpans.Text
