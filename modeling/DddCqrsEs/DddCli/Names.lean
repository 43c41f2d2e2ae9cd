import DddCqrsEs.Ascii
import DddCqrsEs.JsonFile

/- Names that the command line takes, converted to the case that generated code has for them, and
the checks of what comes out. -/
namespace DddCqrsEs.DddCli

/-- The conversions of the `heck` package. -/
structure Heck where
  upperCamel : Text → Text
  snake : Text → Text

/-- A line or a name of generated code. An unpaired brace is written by its number, \x7b or
\x7d. -/
def code (text : String) : Text := text.toList

/-- A literal is its characters: unification splits it, so nothing is decoded. -/
theorem code_literal (letters : List Char) : code (String.ofList letters) = letters :=
  String.toList_ofList

def rustKeywords : List Text :=
  ["abstract", "as", "async", "await", "become", "box", "break", "const", "continue", "crate",
    "do", "dyn", "else", "enum", "extern", "false", "final", "fn", "for", "gen", "if", "impl",
    "in", "let", "loop", "macro", "match", "mod", "move", "mut", "override", "priv", "pub", "ref",
    "return", "self", "Self", "static", "struct", "super", "trait", "true", "try", "type",
    "typeof", "union", "unsafe", "unsized", "use", "virtual", "where", "while", "yield"].map code

def isRustKeyword (value : Text) : Bool := rustKeywords.contains value

def keywordMessage (value : Text) (label : String) : String :=
  label ++ " `" ++ String.ofList value ++ "` is a Rust keyword; use a different name"

def isIdentifierChar (c : Char) : Bool := c.isAlphanum || c == '_'

/-- Ensures a derived name is a valid Rust identifier. -/
def ensureRustIdentifier (value : Text) (label : String) : Except String Unit :=
  if isRustKeyword value then .error (keywordMessage value label)
  else if value.head?.any (fun first => first.isAlpha || first == '_') ∧
      value.all isIdentifierChar then .ok ()
  else
    .error (label ++ " `" ++ String.ofList value ++ "` is not a usable Rust identifier; use a " ++
      "name that converts to an identifier not starting with a digit")

/-- Ensures a derived snake_case name is safe as a module path segment. -/
def ensureSnakeIdentifier (value : Text) (label : String) : Except String Unit :=
  if isRustKeyword value then .error (keywordMessage value label)
  else if value.head?.any (fun first => first.isLower || first == '_') ∧
      value.all (fun c => c.isLower || c.isDigit || c == '_') then .ok ()
  else .error (label ++ " `" ++ String.ofList value ++ "` must be a snake_case Rust identifier")

/-- Ensures a persisted event type name is safe to embed in generated string literals. -/
def ensureEventTypeName (value : Text) (label : String) : Except String Unit :=
  if value = [] then .error (label ++ " must not be empty")
  else if value.all (fun c => c.isLower || c.isDigit || c == '_' || c == '.') then .ok ()
  else
    .error (label ++ " `" ++ String.ofList value ++
      "` must use lowercase letters, digits, `_`, or `.`")

structure NameParts where
  aggregate : Text
  module : Text
  idType : Text
  commandType : Text
  eventType : Text
  createCommand : Text
  createdEvent : Text
  createdEventName : Text

def NameParts.new (heck : Heck) (domainName : Text) : NameParts :=
  let aggregate := heck.upperCamel domainName
  { aggregate
    module := heck.snake aggregate
    idType := aggregate ++ code "Id"
    commandType := aggregate ++ code "Command"
    eventType := aggregate ++ code "Event"
    createCommand := code "Create" ++ aggregate
    createdEvent := aggregate ++ code "Created"
    createdEventName := heck.snake aggregate ++ code "_created" }

structure DomainRecord where
  module : Text
  aggregate : Text
  commands : List Text
  events : List Text

namespace NameParts

def domainRecord (names : NameParts) : DomainRecord where
  module := names.module
  aggregate := names.aggregate
  commands := [names.createCommand]
  events := [names.createdEvent]

/-- The types that the aggregate's module defines for others. -/
def types (names : NameParts) : List Text :=
  [names.aggregate, names.commandType, names.eventType, names.idType]

end NameParts

/-- A text that can stand in generated code as one word. -/
def IsIdentifier (value : Text) : Prop := value ≠ [] ∧ ∀ c ∈ value, isIdentifierChar c = true

theorem isIdentifier_of_rust {value : Text} {label : String}
    (ensured : ensureRustIdentifier value label = .ok ()) : IsIdentifier value := by
  rw [ensureRustIdentifier] at ensured
  split_ifs at ensured with keyword valid
  refine ⟨?_, List.all_eq_true.mp valid.2⟩
  rintro rfl
  exact absurd valid.1 (by decide)

theorem isIdentifier_of_snake {value : Text} {label : String}
    (ensured : ensureSnakeIdentifier value label = .ok ()) : IsIdentifier value := by
  rw [ensureSnakeIdentifier] at ensured
  split_ifs at ensured with keyword valid
  refine ⟨?_, fun c member => ?_⟩
  · rintro rfl
    exact absurd valid.1 (by decide)
  · have kind := List.all_eq_true.mp valid.2 c member
    rw [isIdentifierChar, Ascii.isAlphanum_eq]
    revert kind
    cases c.isLower <;> cases c.isUpper <;> cases c.isDigit <;> simp

theorem IsIdentifier.free {value : Text} (word : IsIdentifier value) {c : Char}
    (other : isIdentifierChar c = false) : c ∉ value := by
  intro member
  rw [word.2 c member] at other
  cases other

theorem isWhitespace_of_identifier {c : Char} (letter : isIdentifierChar c = true) :
    isWhitespace c = false := by
  by_contra white
  rw [Bool.not_eq_false] at white
  simp only [isIdentifierChar, Bool.or_eq_true, Ascii.isAlphanum_iff, beq_iff_eq] at letter
  simp only [isWhitespace, Bool.or_eq_true, Bool.and_eq_true, decide_eq_true_eq] at white
  rcases letter with letter | rfl
  · omega
  · revert white
    decide

end DddCqrsEs.DddCli
