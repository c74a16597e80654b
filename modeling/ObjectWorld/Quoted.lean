/-
Quoted text: how a string is shown where its exact characters matter. It
stands between double quotes; the quote itself, the backslash and the
common control characters have an escape of one letter, and every other
control character (general category Cc) is written by its code point in
lower-case hexadecimal. All else stands for itself.
-/

namespace ObjectWorld.Quoted

/-- The control characters are the code points below the blank, and those
from the delete character up to and including U+009F. -/
def isControl (c : Char) : Bool :=
  c.toNat < 0x20 || (0x7f ≤ c.toNat && c.toNat < 0xa0)

/-- One character between quotes. -/
def escape (c : Char) : String :=
  match c with
  | '\"' => "\\\""
  | '\\' => "\\\\"
  | '\n' => "\\n"
  | '\r' => "\\r"
  | '\t' => "\\t"
  | _ =>
      if c.toNat = 0 then "\\0"
      else if isControl c then
        "\\u\x7b" ++ String.ofList (Nat.toDigits 16 c.toNat) ++ "\x7d"
      else c.toString

/-- A text between quotes. -/
def quote (text : String) : String :=
  "\"" ++ String.join (text.toList.map escape) ++ "\""

/-- A bracketed list of quoted texts. -/
def quoteAll (texts : List String) : String :=
  "[" ++ ", ".intercalate (texts.map quote) ++ "]"

end ObjectWorld.Quoted
