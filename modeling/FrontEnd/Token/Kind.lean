/-!
# Token kinds

The terminals of the language.  A kind is written by its *spelling*: the reserved word or the
operator itself, a class name such as `ntlit` for literals and `id` for names, and `EOF` for the
end of the input.  The spelling is what the grammar, the syntax trace and every diagnostic show.

No two kinds share a spelling, so a kind is read back from it (`Kind.ofSpelling?`).  Reserved
words are a table of their own (`Kind.ofWord?`), since the two truth words `tr` and `fls` are both
boolean literals.
-/

namespace FrontEnd

/-- The terminals of the language. -/
inductive Kind where
  | intWord | doubleWord | stringWord | boolWord | charWord | voidWord
  | ifWord | elseWord | elseIfWord | switchWord | caseWord | defaultWord
  | forWord | whileWord | doWord | breakWord | continueWord | returnWord
  | functionWord | constWord | structWord | instanceWord
  | mainWord | endWord | printWord | inputWord | nullWord
  | identifier
  | intLit | negIntLit | doubleLit | negDoubleLit | stringLit | charLit | boolLit
  | plus | minus | star | slash | percent | power | concat
  | assign | plusAssign | minusAssign | starAssign | slashAssign | percentAssign
  | increment | decrement
  | equal | notEqual | less | greater | lessEqual | greaterEqual
  | both | either | negation
  | leftParen | rightParen | leftBrace | rightBrace | leftBracket | rightBracket
  | semicolon | comma | colon | dot
  | eof
  deriving DecidableEq, Inhabited

namespace Kind

/-- The surface spelling, used by the grammar and in every diagnostic. -/
def spelling : Kind → String
  | intWord => "nt"
  | doubleWord => "dbl"
  | stringWord => "strng"
  | boolWord => "bln"
  | charWord => "chr"
  | voidWord => "vd"
  | ifWord => "f"
  | elseWord => "ls"
  | elseIfWord => "lsf"
  | switchWord => "swtch"
  | caseWord => "cs"
  | defaultWord => "dflt"
  | forWord => "fr"
  | whileWord => "whl"
  | doWord => "d"
  | breakWord => "brk"
  | continueWord => "cntn"
  | returnWord => "rtrn"
  | functionWord => "fnctn"
  | constWord => "cnst"
  | structWord => "strct"
  | instanceWord => "dfstrct"
  | mainWord => "mn"
  | endWord => "end"
  | printWord => "prnt"
  | inputWord => "npt"
  | nullWord => "nll"
  | identifier => "id"
  | intLit => "ntlit"
  | negIntLit => "~ntlit"
  | doubleLit => "dbllit"
  | negDoubleLit => "~dbllit"
  | stringLit => "strnglit"
  | charLit => "chrlit"
  | boolLit => "blnlit"
  | plus => "+"
  | minus => "-"
  | star => "*"
  | slash => "/"
  | percent => "%"
  | power => "**"
  | concat => "`"
  | assign => "="
  | plusAssign => "+="
  | minusAssign => "-="
  | starAssign => "*="
  | slashAssign => "/="
  | percentAssign => "%="
  | increment => "++"
  | decrement => "--"
  | equal => "=="
  | notEqual => "!="
  | less => "<"
  | greater => ">"
  | lessEqual => "<="
  | greaterEqual => ">="
  | both => "&&"
  | either => "||"
  | negation => "!"
  | leftParen => "("
  | rightParen => ")"
  | leftBrace => "\x7b"
  | rightBrace => "\x7d"
  | leftBracket => "["
  | rightBracket => "]"
  | semicolon => ";"
  | comma => ","
  | colon => ":"
  | dot => "."
  | eof => "EOF"

/-- Every kind. -/
def all : List Kind :=
  [intWord, doubleWord, stringWord, boolWord, charWord, voidWord,
   ifWord, elseWord, elseIfWord, switchWord, caseWord, defaultWord,
   forWord, whileWord, doWord, breakWord, continueWord, returnWord,
   functionWord, constWord, structWord, instanceWord,
   mainWord, endWord, printWord, inputWord, nullWord,
   identifier,
   intLit, negIntLit, doubleLit, negDoubleLit, stringLit, charLit, boolLit,
   plus, minus, star, slash, percent, power, concat,
   assign, plusAssign, minusAssign, starAssign, slashAssign, percentAssign,
   increment, decrement,
   equal, notEqual, less, greater, lessEqual, greaterEqual,
   both, either, negation,
   leftParen, rightParen, leftBrace, rightBrace, leftBracket, rightBracket,
   semicolon, comma, colon, dot,
   eof]

theorem mem_all (k : Kind) : k ∈ all := by
  cases k <;> decide

/-- The kind with a given spelling. -/
def ofSpelling? (s : String) : Option Kind :=
  all.find? fun k => k.spelling == s

/-- The reserved words, which are told apart by case. -/
def words : List (String × Kind) :=
  [("npt", inputWord), ("prnt", printWord), ("nt", intWord), ("dbl", doubleWord),
   ("strng", stringWord), ("bln", boolWord), ("chr", charWord), ("f", ifWord),
   ("ls", elseWord), ("lsf", elseIfWord), ("swtch", switchWord), ("fr", forWord),
   ("whl", whileWord), ("d", doWord), ("mn", mainWord), ("cs", caseWord),
   ("dflt", defaultWord), ("brk", breakWord), ("cnst", constWord), ("tr", boolLit),
   ("fls", boolLit), ("fnctn", functionWord), ("rtrn", returnWord), ("end", endWord),
   ("nll", nullWord), ("cntn", continueWord), ("strct", structWord),
   ("dfstrct", instanceWord), ("vd", voidWord)]

/-- The kind a word is reserved for, if it is reserved. -/
def ofWord? (word : String) : Option Kind :=
  words.lookup word

/-- Whether the kind is a reserved word of its own; the truth words are literals. -/
def isKeyword (k : Kind) : Bool :=
  k != boolLit && words.any fun entry => entry.2 == k

/-- Whether the kind names one of the five primitive types. -/
def isPrimitiveType : Kind → Bool
  | intWord | doubleWord | stringWord | boolWord | charWord => true
  | _ => false

/-- The operators and marks that are read by longest match, two-character spellings first.  Signs
are not among them: a run of signs is divided as a whole. -/
def operators : List Kind :=
  [power, starAssign, slashAssign, percentAssign, equal, notEqual, lessEqual, greaterEqual,
   both, either,
   star, slash, percent, assign, negation, less, greater,
   leftParen, rightParen, leftBrace, rightBrace, leftBracket, rightBracket,
   semicolon, comma, colon, dot, concat]

end Kind

end FrontEnd
