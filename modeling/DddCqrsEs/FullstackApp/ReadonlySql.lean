import DddCqrsEs.EnclosedLexemes
import DddCqrsEs.FullstackApp.Base
import DddCqrsEs.InsertReturning
import DddCqrsEs.Utf8

/- The check that a stored query only reads, and the text that is executed for it. -/
namespace DddCqrsEs.FullstackApp

open Cuts SqlLexer

/-- `str::lines`: a carriage return before a line feed belongs to it, and no line follows the
last line feed. -/
def lines (text : Text) : List Text :=
  let pieces := text.splitOn '\n'
  let last := pieces.getLastD []
  pieces.dropLast.map (fun line => if line.getLast? = some '\r' then line.dropLast else line) ++
    if last = [] then [] else [last]

/-- One line of the text that is searched for keywords. -/
def cleanedLine (line : Text) : Text :=
  let line := Cuts.trim isWhitespace (beforeWord "--".toList line)
  if line = [] then [] else line ++ [' ']

def cleaned (trimmed : Text) : Text := (lines trimmed).flatMap cleanedLine

def banned : List String :=
  [" INSERT ", " UPDATE ", " DELETE ", " DROP ", " ALTER ", " CREATE ", " TRUNCATE ", " GRANT ",
    " REVOKE ", " COPY ", " CALL ", " DO ", " EXECUTE ", " VACUUM ", " COMMENT ", " INTO OUTFILE",
    " INTO DUMPFILE"]

/-- Reject non-read SQL. -/
def validateReadonlySql (sql : Text) : Except AuthStackError Unit :=
  let trimmed := Cuts.trim isWhitespace sql
  if trimmed = [] then .error (.validation "SQL is empty")
  else if 16384 < Utf8.size trimmed then .error (.validation "SQL is too long")
  else
    let upper := (cleaned trimmed).map asciiUpper
    if ¬ ("SELECT".toList <+: upper ∨ "WITH".toList <+: upper) then
      .error (.validation "only SELECT / WITH … SELECT queries are allowed")
    else
      let padded := ' ' :: upper ++ [' ']
      match banned.find? (fun ban => decide (ban.toList <:+: padded)) with
      | some ban => .error (.validation ("SQL contains forbidden keyword" ++ trim ban))
      | none =>
        let body := Cuts.trim isWhitespace (trimmed.rdropWhile (· == ';'))
        if ';' ∈ body then .error (.validation "multiple SQL statements are not allowed")
        else .ok ()

/-- What `execute_postgres_dashboard_query` executes for an accepted text. -/
def sqlExec (sql : Text) : Text :=
  if " LIMIT ".toList <:+: sql.map asciiUpper then sql
  else "SELECT * FROM (".toList ++ sql ++ ") AS _dash_q LIMIT 500".toList

def keywords : List String :=
  ["INSERT", "UPDATE", "DELETE", "DROP", "ALTER", "CREATE", "TRUNCATE", "GRANT", "REVOKE",
    "COPY", "CALL", "DO", "EXECUTE", "VACUUM"]

/-- A word that is one of the keywords, in any case. -/
def IsKeyword (word : Text) : Prop := String.ofList (word.map asciiUpper) ∈ keywords

instance (word : Text) : Decidable (IsKeyword word) :=
  inferInstanceAs (Decidable (_ ∈ _))

def NoKeyword (lexemes : List Lexeme) : Prop :=
  ∀ lexeme ∈ lexemes, lexeme.kind = .word → ¬ IsKeyword lexeme.text

instance (lexemes : List Lexeme) : Decidable (NoKeyword lexemes) :=
  inferInstanceAs (Decidable (∀ _ ∈ lexemes, _))

/-- What may follow the semicolon that ends a statement. -/
def Ending (lexeme : Lexeme) : Prop :=
  lexeme.kind = .blank ∨ lexeme.kind = .lineComment ∨ lexeme.kind = .blockComment ∨
    lexeme = ⟨.special, [';']⟩

def SingleStatement (lexemes : List Lexeme) : Prop :=
  ∀ front behind, lexemes = front ++ ⟨.special, [';']⟩ :: behind →
    ∀ lexeme ∈ behind, Ending lexeme

/-- The text is one statement without a keyword, and so is what is executed. -/
def ReadsOnly (sql : Text) : Prop :=
  (∀ lexemes, lex sql = some lexemes → SingleStatement lexemes ∧ NoKeyword lexemes) ∧
    ∀ lexemes, lex (sqlExec sql) = some lexemes → NoKeyword lexemes

/-- A word between these texts stands on its line before any two dashes, next to blanks or to
the ends of the line. -/
def Visible (front behind : Text) : Prop :=
  let before := afterLast '\n' front
  let after := beforeWord "--".toList (upTo (· == '\n') behind)
  ¬ "--".toList <:+: before ∧
    ((∀ c ∈ before, isWhitespace c = true) ∨ before.getLast? = some ' ') ∧
    ((∀ c ∈ after, isWhitespace c = true) ∨ after.head? = some ' ')

/-- Every keyword is visible, and no character beyond ASCII stands behind a semicolon. -/
def Plain (lexemes : List Lexeme) : Prop :=
  (∀ front word behind, lexemes = front ++ ⟨.word, word⟩ :: behind → IsKeyword word →
    Visible (texts front) (texts behind)) ∧
  ∀ front behind, lexemes = front ++ ⟨.special, [';']⟩ :: behind →
    ∀ c ∈ texts behind, c.toNat < 128

end DddCqrsEs.FullstackApp
