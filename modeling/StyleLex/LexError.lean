import StyleLex.Mode

/-! # Lexical errors: a cause, a place, and the mode it arose in -/
namespace StyleLex

inductive Cause where
  | unterminatedLiteral (expected : Char)
  | unexpectedCharacter (found : Char)
  | unbalancedCloseBrace
  | invalidNumberFormat
  | invalidHexColor
  | missingSemicolon
  | unexpectedEndOfInput
  deriving DecidableEq

namespace Cause

/-- The character found where none of its kind may stand, or the end of the text. -/
def unexpected : Option Char → Cause
  | some c => .unexpectedCharacter c
  | none => .unexpectedEndOfInput

def name : Cause → String
  | .unterminatedLiteral _ => "UnterminatedLiteral"
  | .unexpectedCharacter _ => "UnexpectedCharacter"
  | .unbalancedCloseBrace => "UnbalancedCloseBrace"
  | .invalidNumberFormat => "InvalidNumberFormat"
  | .invalidHexColor => "InvalidHexColor"
  | .missingSemicolon => "MissingSemicolon"
  | .unexpectedEndOfInput => "UnexpectedEndOfInput"

def message : Cause → String
  | .unterminatedLiteral c => "unterminated literal, expected closing `" ++ c.toString ++ "`"
  | .unexpectedCharacter c => "unexpected character `" ++ c.toString ++ "`"
  | .unbalancedCloseBrace => "unbalanced `\x7d`"
  | .invalidNumberFormat => "invalid number format"
  | .invalidHexColor => "invalid hex color"
  | .missingSemicolon => "missing `;` after value"
  | .unexpectedEndOfInput => "unexpected end of input"

end Cause

structure LexError where
  cause : Cause
  offset : Nat
  line : Nat
  context : Mode
  deriving DecidableEq

namespace LexError

def message (e : LexError) : String :=
  e.cause.message ++ " at line " ++ toString e.line ++ ", offset " ++ toString e.offset
    ++ " (" ++ e.context.describe ++ ")"

def unterminatedLiteral (expected : Char) (offset line : Nat) (context : Mode) : LexError :=
  ⟨.unterminatedLiteral expected, offset, line, context⟩

def unexpected (found : Option Char) (offset line : Nat) (context : Mode) : LexError :=
  ⟨.unexpected found, offset, line, context⟩

def invalidNumber (offset line : Nat) (context : Mode) : LexError :=
  ⟨.invalidNumberFormat, offset, line, context⟩

def invalidHexColor (offset line : Nat) (context : Mode) : LexError :=
  ⟨.invalidHexColor, offset, line, context⟩

/-- A brace is unbalanced only where no block is open. -/
def unbalancedCloseBrace (offset line : Nat) : LexError :=
  ⟨.unbalancedCloseBrace, offset, line, .topLevel⟩

/-- Only a value can lack its semicolon. -/
def missingSemicolon (offset line : Nat) : LexError :=
  ⟨.missingSemicolon, offset, line, .value⟩

end LexError

end StyleLex
