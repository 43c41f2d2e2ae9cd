import DddCqrsEs.Cuts
import DddCqrsEs.FullstackApp.Base
import DddCqrsEs.Utf8

/- The texts that are shortened for an error or a listing. A slice inside a character panics:
`none`. -/
namespace DddCqrsEs

open Cuts Utf8

def errorBodySnippetMax : Nat := 512

/-- The mark behind a shortened body names its length. -/
def totalMark (bytes : Nat) : List Char :=
  "… (".toList ++ Nat.toDigits 10 bytes ++ " bytes total)".toList

def truncateBodyForError (body : List UInt8) : Option (List Char) :=
  let lossy := decode body
  if Utf8.size lossy ≤ errorBodySnippetMax then some lossy
  else (Utf8.slice errorBodySnippetMax lossy).map (· ++ totalMark body.length)

namespace FullstackApp

inductive ResourceKind where
  | builtin
  | rest
  | postgres
  | grpc
  deriving DecidableEq

inductive HttpMethod where
  | get
  | post
  | put
  | patch
  | delete

def HttpMethod.asStr : HttpMethod → List Char
  | .get => "GET".toList
  | .post => "POST".toList
  | .put => "PUT".toList
  | .patch => "PATCH".toList
  | .delete => "DELETE".toList

inductive BuiltinSourceKey where
  | session
  | sessions
  | organizations
  | audit
  | mfa
  | notifications
  | health

def BuiltinSourceKey.asStr : BuiltinSourceKey → List Char
  | .session => "session".toList
  | .sessions => "sessions".toList
  | .organizations => "organizations".toList
  | .audit => "audit".toList
  | .mfa => "mfa".toList
  | .notifications => "notifications".toList
  | .health => "health".toList

/-- What a summary shows of a query. -/
inductive QueryConfig where
  | rest (method : HttpMethod) (path : List Char)
  | postgres (sql : List Char)
  | grpc (service method : List Char)
  | builtin (key : BuiltinSourceKey)

structure DashboardQuery where
  id : String
  name : String
  resourceId : String
  config : QueryConfig

/-- What a listing reads of a `DashboardResource`. -/
structure ListedResource where
  id : String
  kind : ResourceKind

structure QuerySummary where
  id : String
  name : String
  resourceId : String
  resourceKind : ResourceKind
  detail : List Char

/-- `lines().next()`: a carriage return before the line feed belongs to it. -/
def firstLine (text : List Char) : Option (List Char) :=
  if text = [] then none
  else
    match cutFirst '\n' text with
    | some (line, _) => some (if line.getLast? = some '\r' then line.dropLast else line)
    | none => some text

/-- The line that stands for a statement. -/
def summaryLine (sql : List Char) : List Char :=
  Cuts.trim isWhitespace ((firstLine sql).getD "SQL".toList)

def postgresDetail (sql : List Char) : Option (List Char) :=
  let one := summaryLine sql
  if Utf8.size one > 64 then (Utf8.slice 64 one).map (· ++ ['…']) else some one

def QueryConfig.detail : QueryConfig → Option (List Char)
  | .rest method path => some (method.asStr ++ ' ' :: path)
  | .postgres sql => postgresDetail sql
  | .grpc service method => some (service ++ '/' :: method)
  | .builtin key => some key.asStr

def queryToSummary (query : DashboardQuery) (resources : List ListedResource) :
    Option QuerySummary :=
  let kind :=
    ((resources.find? (fun resource => resource.id == query.resourceId)).map
      ListedResource.kind).getD .rest
  query.config.detail.map (fun detail =>
    { id := query.id
      name := query.name
      resourceId := query.resourceId
      resourceKind := kind
      detail := detail })

end FullstackApp

/-- A text that is not longer than the cut, or has a character start there. -/
def CutFits (cut : Nat) (text : List Char) : Prop := Utf8.size text ≤ cut ∨ Utf8.Boundary cut text

/-- The whole text, or its characters before the cut and a mark. -/
def Shortened (cut : Nat) (mark text shown : List Char) : Prop :=
  (Utf8.size text ≤ cut ∧ shown = text) ∨
    (cut < Utf8.size text ∧ ∃ kept, kept <+: text ∧ Utf8.size kept = cut ∧ shown = kept ++ mark)

theorem shortened_of_fits {cut : Nat} {text : List Char} (fits : CutFits cut text)
    (mark : List Char) :
    ∃ shown, (if Utf8.size text ≤ cut then some text else (Utf8.slice cut text).map (· ++ mark)) =
        some shown ∧ Shortened cut mark text shown := by
  by_cases short : Utf8.size text ≤ cut
  · exact ⟨text, if_pos short, Or.inl ⟨short, rfl⟩⟩
  · obtain ⟨front, back, whole, length⟩ := fits.resolve_left short
    have opens : front <+: text := ⟨back, whole.symm⟩
    refine ⟨front ++ mark, ?_, Or.inr ⟨by omega, front, opens, length, rfl⟩⟩
    rw [if_neg short, slice_eq_some.mpr ⟨opens, length⟩]
    rfl

namespace FullstackApp

theorem postgresDetail_eq (sql : List Char) :
    postgresDetail sql =
      if Utf8.size (summaryLine sql) ≤ 64 then some (summaryLine sql)
      else (Utf8.slice 64 (summaryLine sql)).map (· ++ ['…']) := by
  rw [postgresDetail]
  by_cases short : Utf8.size (summaryLine sql) ≤ 64
  · rw [if_pos short]
    exact if_neg (by omega)
  · rw [if_neg short]
    exact if_pos (by omega)

theorem queryToSummary_detail (query : DashboardQuery) (resources : List ListedResource) :
    (queryToSummary query resources).map QuerySummary.detail = query.config.detail := by
  rw [queryToSummary, Option.map_map]
  exact Option.map_id'

end FullstackApp

open FullstackApp

/-- Where the cut fits, a body is shown whole or as its first 512 bytes with a mark, and a stored
statement as its first line without the blanks around it, whole or as its first 64 bytes with a
mark. -/
theorem truncation_keeps (body : List UInt8) (query : DashboardQuery)
    (resources : List ListedResource) (sql : List Char)
    (stored : query.config = .postgres sql) (bodyFits : CutFits 512 (decode body))
    (lineFits : CutFits 64 (summaryLine sql)) :
    (∃ shown, truncateBodyForError body = some shown ∧
      Shortened 512 (totalMark body.length) (decode body) shown) ∧
    ∃ summary, queryToSummary query resources = some summary ∧
      Shortened 64 ['…'] (summaryLine sql) summary.detail := by
  refine ⟨shortened_of_fits bodyFits (totalMark body.length), ?_⟩
  obtain ⟨shown, found, shortened⟩ := shortened_of_fits lineFits ['…']
  have detail := queryToSummary_detail query resources
  rw [stored, QueryConfig.detail, postgresDetail_eq, found, Option.map_eq_some_iff] at detail
  obtain ⟨summary, listed, same⟩ := detail
  exact ⟨summary, listed, same ▸ shortened⟩

theorem truncation_keeps_short :
    truncateBodyForError (encode "kaputt: größe".toList) = some "kaputt: größe".toList ∧
      ∃ summary,
        queryToSummary ⟨"q1", "names", "r1", .postgres "  SELECT 'é'\r\nFROM t".toList⟩
          [⟨"r1", .postgres⟩] = some summary ∧ summary.detail = "SELECT 'é'".toList := by
  have kept := truncation_keeps (encode "kaputt: größe".toList)
    ⟨"q1", "names", "r1", .postgres "  SELECT 'é'\r\nFROM t".toList⟩ [⟨"r1", .postgres⟩] _ rfl
    (Or.inl (by rw [decode_encode]; decide)) (Or.inl (by decide))
  obtain ⟨⟨shown, found, shortened⟩, summary, listed, detail⟩ := kept
  rw [decode_encode] at shortened
  refine ⟨?_, summary, listed, ?_⟩
  · rcases shortened with ⟨-, same⟩ | ⟨long, -⟩
    · rw [found, same]
    · exact absurd long (by decide)
  · rcases detail with ⟨-, same⟩ | ⟨long, -⟩
    · rw [same]
      decide
    · exact absurd long (by decide)

/-- No character starts inside another one. -/
theorem not_boundary {front back : List Char} {c : Char} {cut : Nat}
    (behind : Utf8.size front < cut) (before : cut < Utf8.size front + c.utf8Size) :
    ¬ Utf8.Boundary cut (front ++ c :: back) := by
  rintro ⟨first, rest, whole, length⟩
  rcases List.append_eq_append_iff.mp whole with ⟨part, longer, tail⟩ | ⟨part, shorter, -⟩
  · rw [longer, size_append] at length
    cases part with
    | nil =>
      simp only [Utf8.size, List.map_nil, List.sum_nil] at length behind
      omega
    | cons d part =>
      rw [(List.cons.inj tail).1] at before
      rw [size_cons] at length
      omega
  · rw [shorter, size_append] at behind
    omega

/-- A character across the cut makes both functions panic, and of a longer line in ASCII the
detail shows no prefix, for its mark. -/
theorem acrossCut_panics :
    truncateBodyForError (encode (List.replicate 511 'a' ++ ['é'])) = none ∧
    queryToSummary ⟨"q1", "names", "r1", .postgres (List.replicate 63 'a' ++ ['é'])⟩ [] =
      none ∧
    ∃ summary,
      queryToSummary ⟨"q1", "names", "r1", .postgres (List.replicate 65 'a')⟩ [] =
        some summary ∧ ¬ summary.detail <+: List.replicate 65 'a' := by
  have lengths : ∀ count, Utf8.size (List.replicate count 'a') = count := by
    intro count
    induction count with
    | zero => rfl
    | succ count ih =>
      rw [List.replicate_succ, size_cons, ih, Nat.add_comm]
      rfl
  refine ⟨?_, ?_, ?_⟩
  · have long : ¬ Utf8.size (List.replicate 511 'a' ++ ['é']) ≤ 512 := by
      rw [size_append, lengths]
      decide
    have inside : ¬ Utf8.Boundary 512 (List.replicate 511 'a' ++ ['é']) := by
      refine not_boundary ?_ ?_
      · rw [lengths]
        decide
      · rw [lengths]
        decide
    rw [truncateBodyForError, decode_encode]
    show (if Utf8.size (List.replicate 511 'a' ++ ['é']) ≤ 512 then _ else _) = _
    rw [if_neg long]
    show (Utf8.slice 512 (List.replicate 511 'a' ++ ['é'])).map _ = none
    rw [slice_eq_none.mpr inside]
    rfl
  · rfl
  · refine ⟨_, rfl, by decide⟩

end DddCqrsEs
