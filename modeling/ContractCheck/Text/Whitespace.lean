/-!
White space of all scripts, and texts without it at their ends.
-/

namespace ContractCheck.Text

def isWhitespace (c : Char) : Bool :=
  let n := c.toNat
  (0x9 ≤ n && n ≤ 0xd) || n == 0x20 || n == 0x85 || n == 0xa0 || n == 0x1680 ||
    (0x2000 ≤ n && n ≤ 0x200a) || n == 0x2028 || n == 0x2029 || n == 0x202f || n == 0x205f ||
    n == 0x3000

def trimEnd (text : String) : String :=
  String.ofList (text.toList.reverse.dropWhile isWhitespace).reverse

def trim (text : String) : String :=
  trimEnd (String.ofList (text.toList.dropWhile isWhitespace))

end ContractCheck.Text
