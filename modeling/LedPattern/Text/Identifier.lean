/-!
# Identifiers

Symbols of emitted code are letters, digits and underscores of ASCII. A name from a graph may hold
any character, and `sanitize` maps it to a part of a symbol.
-/

namespace LedPattern.Text

/-- Whether a character is a letter or a digit of ASCII. -/
def isLetterOrDigit (c : Char) : Bool := c.isAlpha || c.isDigit

/-- Whether a character may stand in an identifier. -/
def isIdentifierChar (c : Char) : Bool := isLetterOrDigit c || c = '_'

/-- Whether an identifier may start with a character. -/
def isIdentifierStart (c : Char) : Bool := c.isAlpha || c = '_'

/-- The name with every character outside the letters and digits replaced by an underscore. -/
def sanitize (s : String) : String :=
  String.ofList (s.toList.map fun c => if isLetterOrDigit c then c else '_')

/-- Whether a name starts with a digit. -/
def startsWithDigit (s : String) : Bool := s.toList.head?.any Char.isDigit

/-- An identifier made from a name: an underscore goes in front of a digit, and alone stands for
the empty name. -/
def identifierOf (s : String) : String :=
  let body := sanitize s
  if body.isEmpty || startsWithDigit body then "_" ++ body else body

end LedPattern.Text
