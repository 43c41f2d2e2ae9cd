import DddCqrsEs.JsonFile

/- The errors of the full-stack application, and the texts it trims. -/
namespace DddCqrsEs.FullstackApp

inductive AuthStackError where
  | validation (message : String)
  | notFound (message : String)
  | conflict (message : String)
  | configuration (message : String)
  | store (message : String)
  | serialization (message : String)
  | transport (message : String)
  deriving DecidableEq

/-- `str::trim` -/
def trim (text : String) : String :=
  String.ofList ((text.toList.dropWhile isWhitespace).reverse.dropWhile isWhitespace).reverse

/-- How a computation that may fail has failed. -/
theorem error_of_bind {ε α β : Type} {first : Except ε α} {next : α → Except ε β} {error : ε}
    (failed : first >>= next = .error error) :
    first = .error error ∨ ∃ value, first = .ok value ∧ next value = .error error := by
  cases first with
  | error other =>
    cases failed
    exact Or.inl rfl
  | ok value => exact Or.inr ⟨value, rfl, failed⟩

end DddCqrsEs.FullstackApp
