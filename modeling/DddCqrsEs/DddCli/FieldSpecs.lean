import DddCqrsEs.DddCli.Markers
import DddCqrsEs.DddCli.Names

/- The fields of a command or an event, as they are given on the command line, and the lines of
generated code that are made of them. -/
namespace DddCqrsEs.DddCli

/-- Is a character allowed in a field's type? -/
def isTypeChar (c : Char) : Bool := c.isAlphanum || (code " _:<>[],&'*+|").contains c

/-- One specification, with the fields read before it. -/
def parseFieldSpec (heck : Heck) (parsed : List (Text × Text)) (field : Text) :
    Except String (Text × Text) :=
  match Cuts.cutFirst ':' field with
  | none => .error ("field `" ++ String.ofList field ++ "` must use name:type syntax")
  | some (name, ty) =>
    if trim name = [] ∨ trim ty = [] then
      .error ("field `" ++ String.ofList field ++ "` must use non-empty name and type")
    else if ',' ∈ name then
      .error ("field name `" ++ String.ofList name ++ "` in `" ++ String.ofList field ++
        "` must not contain commas; pass one `--field` per field")
    else
      let name := heck.snake (trim name)
      match ensureSnakeIdentifier name "field name" with
      | .error error => .error error
      | .ok () =>
        if parsed.any (fun existing => existing.1 == name) then
          .error ("duplicate field name `" ++ String.ofList name ++ "`")
        else if (trim ty).all isTypeChar then .ok (name, trim ty)
        else
          .error ("field type `" ++ String.ofList (trim ty) ++ "` in `" ++ String.ofList field ++
            "` contains characters that are not allowed in generated code")

def parseFieldsFrom (heck : Heck) :
    List (Text × Text) → List Text → Except String (List (Text × Text))
  | parsed, [] => .ok parsed
  | parsed, field :: fields =>
    match parseFieldSpec heck parsed field with
    | .error error => .error error
    | .ok spec => parseFieldsFrom heck (parsed ++ [spec]) fields

def parseFieldSpecs (heck : Heck) (fields : List Text) : Except String (List (Text × Text)) :=
  parseFieldsFrom heck [] fields

def renderField (field : Text × Text) : Text := field.1 ++ code ": " ++ field.2

/-- Without the line feed behind it. -/
def eventVariantLine (heck : Heck) (name : Text) (fields : List (Text × Text)) : Text :=
  let variant := heck.upperCamel name
  if fields = [] then code "    " ++ variant ++ code " {},"
  else
    code "    " ++ variant ++ code " \x7b " ++ (code ", ").intercalate (fields.map renderField) ++
      code " \x7d,"

def renderEventVariant (heck : Heck) (name : Text) (fields : List (Text × Text)) : Text :=
  eventVariantLine heck name fields ++ ['\n']

def renderCommandVariant (heck : Heck) (name : Text) (fields : List (Text × Text)) : Text :=
  renderEventVariant heck name fields

def eventTypeArmLine (heck : Heck) (eventType variant : Text) : Text :=
  code "            Self::" ++ heck.upperCamel variant ++ code " { .. } => \"" ++ eventType ++
    code "\","

def renderEventTypeArm (heck : Heck) (eventType variant : Text) : Except String Text :=
  match ensureEventTypeName eventType "event type" with
  | .error error => .error error
  | .ok () => .ok (eventTypeArmLine heck eventType variant ++ ['\n'])

def commandHandleArmLine (heck : Heck) (commandType command : Text) : Text :=
  let command := heck.upperCamel command
  code "            " ++ commandType ++ code "::" ++ command ++ code " { .. } => Err(\"" ++ command ++
    code " command handler is not implemented\".to_string()),"

def renderCommandHandleArm (heck : Heck) (commandType command : Text) : Text :=
  commandHandleArmLine heck commandType command ++ ['\n']

def applyArmLine (eventType variant : Text) : Text :=
  code "            " ++ eventType ++ code "::" ++ variant ++ code " { .. } => {}"

/-- A field's name and the text of its type. -/
structure IsField (field : Text × Text) : Prop where
  name : IsIdentifier field.1
  nonempty : field.2 ≠ []
  solid : trim field.2 = field.2
  letters : ∀ c ∈ field.2, isTypeChar c = true

variable {heck : Heck} {parsed read : List (Text × Text)} {fields : List Text}

theorem isField_of_spec {field : Text} {spec : Text × Text}
    (read : parseFieldSpec heck parsed field = .ok spec) : IsField spec := by
  rw [parseFieldSpec] at read
  split at read
  · cases read
  · rename_i name ty cut
    split at read
    · cases read
    · rename_i given
      split at read
      · cases read
      · dsimp only at read
        split at read
        · cases read
        · rename_i ensured
          split_ifs at read with twice safe
          cases read
          rw [not_or] at given
          exact ⟨isIdentifier_of_snake ensured, given.2, trim_trim ty, List.all_eq_true.mp safe⟩

theorem isField_of_fields (before : ∀ field ∈ parsed, IsField field)
    (accepted : parseFieldsFrom heck parsed fields = .ok read) : ∀ field ∈ read, IsField field := by
  induction fields generalizing parsed with
  | nil =>
    cases accepted
    exact before
  | cons field fields ih =>
    rw [parseFieldsFrom] at accepted
    split at accepted
    · cases accepted
    · rename_i spec first
      apply ih _ accepted
      simp only [List.forall_mem_append, List.forall_mem_singleton]
      exact ⟨before, isField_of_spec first⟩

theorem isField_of_parsed (accepted : parseFieldSpecs heck fields = .ok read) :
    ∀ field ∈ read, IsField field :=
  isField_of_fields (by simp) accepted

end DddCqrsEs.DddCli
