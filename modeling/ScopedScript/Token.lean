import ScopedScript.Position
import ScopedScript.Value

/-!
# Tokens

A token is a kind, the text it was read from and the position of its first character. Keywords and
marks have a fixed spelling; literals carry the value they stand for and identifiers their name.
-/

namespace ScopedScript

/-! ## Reserved words -/

/-- A reserved word. -/
inductive Keyword where
  | kwVar
  | kwFunc
  | kwInt
  | kwFloat
  | kwBool
  | kwStr
  | kwVoid
  | kwIf
  | kwElseif
  | kwElse
  | kwWhile
  | kwFor
  | kwIn
  | kwBreak
  | kwContinue
  | kwReturn
  | kwAnd
  | kwOr
  | kwNot
  deriving DecidableEq

namespace Keyword

/-- The spelling in the source. -/
def spelling : Keyword → String
  | kwVar => "var"
  | kwFunc => "func"
  | kwInt => "int"
  | kwFloat => "float"
  | kwBool => "bool"
  | kwStr => "str"
  | kwVoid => "void"
  | kwIf => "if"
  | kwElseif => "elseif"
  | kwElse => "else"
  | kwWhile => "while"
  | kwFor => "for"
  | kwIn => "in"
  | kwBreak => "break"
  | kwContinue => "continue"
  | kwReturn => "return"
  | kwAnd => "and"
  | kwOr => "or"
  | kwNot => "not"

/-- All reserved words. -/
def all : List Keyword :=
  [kwVar, kwFunc, kwInt, kwFloat, kwBool, kwStr, kwVoid, kwIf, kwElseif, kwElse, kwWhile, kwFor,
   kwIn, kwBreak, kwContinue, kwReturn, kwAnd, kwOr, kwNot]

/-- The reserved word of a spelling. -/
def ofSpelling? (text : String) : Option Keyword :=
  all.find? (·.spelling = text)

/-- The type that a reserved word names. -/
def type? : Keyword → Option Ty
  | kwInt => some .int
  | kwFloat => some .float
  | kwBool => some .bool
  | kwStr => some .str
  | _ => none

/-- A spelling tells its reserved word. -/
@[simp] theorem ofSpelling?_spelling (word : Keyword) : ofSpelling? word.spelling = some word := by
  cases word <;> decide

end Keyword

/-! ## Punctuation -/

/-- An operator or a delimiter made of signs. -/
inductive Mark where
  | plus
  | plusAssign
  | minus
  | minusAssign
  | star
  | starAssign
  | slash
  | slashAssign
  | doubleSlash
  | doubleSlashAssign
  | percent
  | percentAssign
  | assign
  | equal
  | notEqual
  | less
  | lessEqual
  | greater
  | greaterEqual
  | colon
  | semicolon
  | comma
  | leftBrace
  | rightBrace
  | leftParen
  | rightParen
  | leftBracket
  | rightBracket
  deriving DecidableEq

namespace Mark

/-- The spelling in the source. -/
def spelling : Mark → String
  | plus => "+"
  | plusAssign => "+="
  | minus => "-"
  | minusAssign => "-="
  | star => "*"
  | starAssign => "*="
  | slash => "/"
  | slashAssign => "/="
  | doubleSlash => "//"
  | doubleSlashAssign => "//="
  | percent => "%"
  | percentAssign => "%="
  | assign => "="
  | equal => "=="
  | notEqual => "!="
  | less => "<"
  | lessEqual => "<="
  | greater => ">"
  | greaterEqual => ">="
  | colon => ":"
  | semicolon => ";"
  | comma => ","
  | leftBrace => "\x7b"
  | rightBrace => "\x7d"
  | leftParen => "("
  | rightParen => ")"
  | leftBracket => "["
  | rightBracket => "]"

/-- All marks, the longer spellings first. -/
def all : List Mark :=
  [doubleSlashAssign, plusAssign, minusAssign, starAssign, slashAssign, doubleSlash, percentAssign,
   equal, notEqual, lessEqual, greaterEqual, plus, minus, star, slash, percent, assign, less,
   greater, colon, semicolon, comma, leftBrace, rightBrace, leftParen, rightParen, leftBracket,
   rightBracket]

/-- The mark with the longest spelling that a text starts with. -/
def leading? (text : List Char) : Option Mark :=
  all.find? (·.spelling.toList.isPrefixOf text)

theorem mem_all (mark : Mark) : mark ∈ all := by
  cases mark <;> decide

/-- A spelling tells its mark. -/
theorem spelling_injective {a b : Mark} (h : a.spelling = b.spelling) : a = b := by
  revert h
  cases a <;> cases b <;> decide

/-- The longer spellings come first. -/
theorem pairwise_all : all.Pairwise fun a b => b.spelling.length ≤ a.spelling.length := by
  decide

end Mark

/-! ## Tokens -/

/-- What a token is. -/
inductive TokenKind where
  | literal (value : Value)
  | identifier (name : String)
  | keyword (word : Keyword)
  | mark (sign : Mark)
  | comment
  | newLine
  | openComment
  | openString
  | endOfInput
  deriving DecidableEq

namespace TokenKind

/-- The fixed spelling of a kind; empty for kinds that have none. -/
def spelling : TokenKind → String
  | keyword word => word.spelling
  | mark sign => sign.spelling
  | openComment => "/*"
  | openString => "\""
  | literal _ | identifier _ | comment | newLine | endOfInput => ""

/-- A kind as a diagnostic names it. -/
def describe : TokenKind → String
  | literal (.float x) => "float literal " ++ Decimal.valueText x
  | literal (.int n) => "integer literal " ++ Integer.text n
  | literal (.bool b) => "boolean literal " ++ boolText b
  | literal (.str s) => "string literal " ++ Text.shown s
  | identifier name => "identifier '" ++ name ++ "'"
  | endOfInput => "end of input"
  | kind => "'" ++ kind.spelling ++ "'"

/-- The type that a kind names. -/
def type? : TokenKind → Option Ty
  | keyword word => word.type?
  | _ => none

end TokenKind

/-- A token of a source text. -/
structure Token where
  kind : TokenKind
  literal : String
  /-- The place of its first character. -/
  position : Position
  deriving DecidableEq

end ScopedScript
