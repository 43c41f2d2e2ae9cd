import DddCqrsEs.Cuts
import DddCqrsEs.JsonFile

/- Edits of generated source files: lines put before the line of an end marker, unless the block
that the marker ends has them. -/
namespace DddCqrsEs.DddCli

open LineLog

/-- `str::trim` -/
def trim (text : Text) : Text := Cuts.trim isWhitespace text

/-- `strip_suffix` -/
def stripSuffix (suffix text : Text) : Option Text :=
  if suffix.isSuffixOf text then some (text.take (text.length - suffix.length)) else none

/-- `line.strip_suffix('\n').unwrap_or(line)` -/
def lineBody (line : Text) : Text := (stripSuffix ['\n'] line).getD line

/-- The loop over the lines, with the offset that was found and the one of the next line. -/
@[grind =] def uniqueMarkerFrom (marker : Text) : Option Nat → Nat → List Text → Except String (Option Nat)
  | found, _, [] => .ok found
  | found, offset, line :: lines =>
    if trim (lineBody line) = marker then
      if found.isSome then
        .error ("marker `" ++ String.ofList marker ++ "` appears more than once")
      else uniqueMarkerFrom marker (some offset) (offset + line.length) lines
    else uniqueMarkerFrom marker found (offset + line.length) lines

def notFound (marker : Text) : String := "marker `" ++ String.ofList marker ++ "` not found"

def findUniqueMarkerLine (content marker : Text) : Except String Nat :=
  let marker := trim marker
  match uniqueMarkerFrom marker none 0 (splitInclusive content) with
  | .error error => .error error
  | .ok (some offset) => .ok offset
  | .ok none => .error (notFound marker)

def lastMarkerFrom (marker : Text) : Option Nat → Nat → List Text → Option Nat
  | found, _, [] => found
  | found, offset, line :: lines =>
    lastMarkerFrom marker (if trim (lineBody line) = marker then some offset else found)
      (offset + line.length) lines

def findLastUniqueMarkerLine (content marker : Text) : Except String Nat :=
  let marker := trim marker
  match lastMarkerFrom marker none 0 (splitInclusive content) with
  | some offset => .ok offset
  | none => .error (notFound marker)

def markerBlock (content endMarker : Text) : Option Text :=
  match findUniqueMarkerLine content endMarker, stripSuffix ":end".toList (trim endMarker) with
  | .ok ending, some startMarker =>
    match findLastUniqueMarkerLine (content.take ending) startMarker with
    | .ok start => some ((content.take ending).drop start)
    | .error _ => none
  | _, _ => none

/-- The trimmed lines of a text that are not blank. -/
def needles (insertion : Text) : List Text := ((lines insertion).map trim).filter (· ≠ [])

def blockContainsTrimmedLines (block insertion : Text) : Bool :=
  if needles insertion = [] then decide (trim insertion <:+: block)
  else (needles insertion).all fun needle => (lines block).any fun line => trim line == needle

def insertBeforeMarker (content marker insertion : Text) : Except String Text :=
  if (markerBlock content marker).any fun block => blockContainsTrimmedLines block insertion then
    .ok content
  else
    match findUniqueMarkerLine content marker with
    | .error error => .error error
    | .ok index => .ok (content.take index ++ insertion ++ content.drop index)

/-- A line carries a marker, up to blanks around them. -/
abbrev Carries (marker line : Text) : Prop := trim line = trim marker

/-- The one line that carries the marker, with the lines before it and behind it. -/
structure Found (marker : Text) (all front : List Text) (line : Text) (back : List Text) :
    Prop where
  split : all = front ++ line :: back
  carries : Carries marker line
  before : ∀ other ∈ front, ¬ Carries marker other
  behind : ∀ other ∈ back, ¬ Carries marker other

theorem trim_trim (text : Text) : trim (trim text) = trim text := Cuts.trim_trim _ _

theorem trim_ended (text : Text) : trim (text ++ ['\n']) = trim text :=
  Cuts.trim_concat_of_drops (by decide) text

theorem trim_lineBody (line : Text) : trim (lineBody line) = trim line := by
  rw [lineBody, stripSuffix]
  split
  · rename_i ends
    obtain ⟨body, rfl⟩ := List.isSuffixOf_iff_suffix.mp ends
    rw [trim_ended]
    simp
  · rfl

theorem trim_stripEnding (line : Text) : trim (stripEnding line) = trim line := by
  have dropped {text : Text} {c : Char} (blank : isWhitespace c = true)
      (last : text.getLast? = some c) : trim text.dropLast = trim text := by
    have shorter := Cuts.trim_concat_of_drops blank text.dropLast
    rw [List.dropLast_append_getLast? c last] at shorter
    exact shorter.symm
  rw [stripEnding]
  split
  · rename_i ends
    rw [← dropped (by decide) ends]
    dsimp only
    split
    · rename_i carriage
      exact dropped (by decide) carriage
    · rfl
  · rfl

variable {marker content insertion : Text} {front back : List Text} {line : Text}
  {all block before behind after between : List Text} {start other first second : Text}

theorem uniqueMarkerFrom_of_none (found : Option Nat) (offset : Nat)
    (none : ∀ other ∈ all, ¬ Carries marker other) :
    uniqueMarkerFrom (trim marker) found offset all = .ok found := by
  induction all generalizing offset with
  | nil => rfl
  | cons line all ih =>
    rw [List.forall_mem_cons] at none
    rw [uniqueMarkerFrom, trim_lineBody, if_neg none.1, ih _ none.2]

theorem uniqueMarkerFrom_of_some (found offset : Nat) {result : Option Nat}
    (read : uniqueMarkerFrom (trim marker) (some found) offset all = .ok result) :
    ∀ other ∈ all, ¬ Carries marker other := by
  induction all generalizing offset with
  | nil => simp
  | cons line all ih =>
    rw [uniqueMarkerFrom, trim_lineBody] at read
    split at read
    · cases read
    · rename_i other
      rw [List.forall_mem_cons]
      exact ⟨other, ih _ read⟩

theorem uniqueMarkerFrom_of_found (found : Found marker all front line back) (offset : Nat) :
    uniqueMarkerFrom (trim marker) none offset all =
      .ok (some (offset + front.flatten.length)) := by
  obtain ⟨split, carries, before, behind⟩ := found
  subst split
  induction front generalizing offset with
  | nil =>
    rw [List.nil_append, uniqueMarkerFrom, trim_lineBody, if_pos carries]
    exact uniqueMarkerFrom_of_none _ _ behind
  | cons first front ih =>
    rw [List.forall_mem_cons] at before
    rw [List.cons_append, uniqueMarkerFrom, trim_lineBody, if_neg before.1,
      ih _ before.2, List.flatten_cons, List.length_append, Nat.add_assoc]

theorem found_of_uniqueMarkerFrom {offset index : Nat}
    (read : uniqueMarkerFrom (trim marker) none offset all = .ok (some index)) :
    ∃ front line back, Found marker all front line back := by
  induction all generalizing offset with
  | nil => cases read
  | cons first all ih =>
    rw [uniqueMarkerFrom, trim_lineBody] at read
    split at read
    · rename_i carries
      exact ⟨[], first, all, rfl, carries, by simp, uniqueMarkerFrom_of_some _ _ read⟩
    · rename_i other
      obtain ⟨front, line, back, found⟩ := ih read
      refine ⟨first :: front, line, back, by rw [found.split]; rfl, found.carries, ?_,
        found.behind⟩
      rw [List.forall_mem_cons]
      exact ⟨other, found.before⟩

theorem findUniqueMarkerLine_of_found
    (found : Found marker (splitInclusive content) front line back) :
    findUniqueMarkerLine content marker = .ok front.flatten.length := by
  rw [findUniqueMarkerLine]
  simp only [uniqueMarkerFrom_of_found found, Nat.zero_add]

theorem found_of_ok {index : Nat} (read : findUniqueMarkerLine content marker = .ok index) :
    ∃ front line back, Found marker (splitInclusive content) front line back := by
  rw [findUniqueMarkerLine] at read
  split at read
  · cases read
  · rename_i offset search
    exact found_of_uniqueMarkerFrom search
  · cases read

/-- The text before the found line, and from it on. -/
theorem Found.cut (found : Found marker (splitInclusive content) front line back) :
    content.take front.flatten.length = front.flatten ∧
      content.drop front.flatten.length = (line :: back).flatten ∧
      splitInclusive front.flatten = front := by
  have whole : content = front.flatten ++ (line :: back).flatten := by
    rw [← List.flatten_append, ← found.split, flatten_splitInclusive]
  have areLines := isLine_of_split found.split
  have front : splitInclusive (front.flatten ++ []) = front ++ [] :=
    splitInclusive_flatten areLines []
  rw [List.append_nil, List.append_nil] at front
  refine ⟨?_, ?_, front⟩
  · rw [whole, List.take_left]
  · rw [whole, List.drop_left]

/-- The lines from the last one on that is marked. -/
@[grind =] def lastFrom (marked : Text → Prop) [DecidablePred marked] : List Text → Option (List Text)
  | [] => none
  | line :: lines =>
    match lastFrom marked lines with
    | some block => some block
    | none => if marked line then some (line :: lines) else none

/-- The text of the start marker. -/
def startMarker (endMarker : Text) : Option Text := stripSuffix ":end".toList (trim endMarker)

/-- The lines of the block that ends behind these lines. -/
@[grind =] def blockOf (endMarker : Text) (front : List Text) : Option (List Text) :=
  (startMarker endMarker).bind fun start => lastFrom (Carries start) front

section LastFrom

variable {marked : Text → Prop} [DecidablePred marked]

theorem lastFrom_eq_none : lastFrom marked all = none ↔ ∀ line ∈ all, ¬ marked line := by
  induction all with
  | nil => simp [lastFrom]
  | cons line all ih =>
    rw [lastFrom, List.forall_mem_cons, ← ih]
    cases rest : lastFrom marked all with
    | some block => simp
    | none => simp

theorem lastFrom_append (first second : List Text) :
    lastFrom marked (first ++ second) =
      match lastFrom marked second with
      | some block => some block
      | none => (lastFrom marked first).map (· ++ second) := by
  induction first with
  | nil =>
    rw [List.nil_append, lastFrom]
    cases lastFrom marked second <;> rfl
  | cons line first ih =>
    rw [List.cons_append, lastFrom, ih, lastFrom]
    cases lastFrom marked second with
    | some block => rfl
    | none =>
      cases lastFrom marked first with
      | some block => rfl
      | none =>
        simp only [Option.map_none]
        split <;> rfl

theorem lastFrom_suffix {block : List Text} (last : lastFrom marked all = some block) :
    block <:+ all := by
  induction all with
  | nil => cases last
  | cons line all ih =>
    rw [lastFrom] at last
    cases rest : lastFrom marked all with
    | some later =>
      rw [rest] at last
      cases last
      exact (ih rest).trans (List.suffix_cons line all)
    | none =>
      rw [rest] at last
      dsimp only at last
      split at last
      · cases last
        exact List.suffix_rfl
      · cases last

end LastFrom

theorem flatten_length_le (behind : block <:+ all) : block.flatten.length ≤ all.flatten.length := by
  obtain ⟨before, rfl⟩ := behind
  rw [List.flatten_append, List.length_append]
  omega

theorem lastMarkerFrom_eq (all : List Text) (found : Option Nat) (offset : Nat) :
    lastMarkerFrom (trim start) found offset all =
      match lastFrom (Carries start) all with
      | some block => some (offset + (all.flatten.length - block.flatten.length))
      | none => found := by
  induction all generalizing found offset with
  | nil => rfl
  | cons line all ih =>
    rw [lastMarkerFrom, trim_lineBody, ih, lastFrom]
    cases last : lastFrom (Carries start) all with
    | some block =>
      have shorter := flatten_length_le (lastFrom_suffix last)
      simp only [List.flatten_cons, List.length_append, Option.some_inj]
      omega
    | none =>
      dsimp only
      split
      · simp
      · rfl

theorem findLastUniqueMarkerLine_flatten (areLines : splitInclusive front.flatten = front) :
    findLastUniqueMarkerLine front.flatten start =
      match lastFrom (Carries start) front with
      | some block => .ok (front.flatten.length - block.flatten.length)
      | none => .error (notFound (trim start)) := by
  rw [findLastUniqueMarkerLine]
  simp only [areLines, lastMarkerFrom_eq]
  cases lastFrom (Carries start) front with
  | some block => simp
  | none => rfl

theorem drop_of_suffix (behind : block <:+ all) :
    all.flatten.drop (all.flatten.length - block.flatten.length) = block.flatten := by
  obtain ⟨before, rfl⟩ := behind
  rw [List.flatten_append, List.length_append, Nat.add_sub_cancel, List.drop_left]

theorem markerBlock_of_found (found : Found marker (splitInclusive content) front line back) :
    markerBlock content marker = (blockOf marker front).map List.flatten := by
  obtain ⟨taken, -, areLines⟩ := found.cut
  rw [markerBlock, findUniqueMarkerLine_of_found found, blockOf, startMarker]
  cases stripSuffix ":end".toList (trim marker) with
  | none => rfl
  | some start =>
    dsimp only
    rw [taken, findLastUniqueMarkerLine_flatten areLines, Option.bind_some]
    cases last : lastFrom (Carries start) front with
    | none => rfl
    | some block =>
      dsimp only
      rw [drop_of_suffix (lastFrom_suffix last), Option.map_some]

/-- Each line of the insertion that is not blank is, up to blanks around it, one of these lines. -/
def Present (insertion : Text) (block : List Text) : Prop :=
  ∀ line ∈ splitInclusive insertion, trim line ≠ [] → ∃ other ∈ block, trim other = trim line

theorem mem_needles {needle : Text} : needle ∈ needles insertion ↔
    needle ≠ [] ∧ ∃ line ∈ splitInclusive insertion, trim line = needle := by
  rw [needles, List.mem_filter, List.mem_map, lines]
  simp [trim_stripEnding, and_comm]

/-- A text of blank lines is blank. -/
theorem trim_eq_nil_of_needles (none : needles insertion = []) : trim insertion = [] := by
  have blank : ∀ c ∈ insertion, isWhitespace c = true := by
    intro c member
    rw [← flatten_splitInclusive insertion, List.mem_flatten] at member
    obtain ⟨line, among, inside⟩ := member
    by_contra kept
    have trimmed : c ∈ trim line := Cuts.mem_trim_of_kept (Bool.not_eq_true _ ▸ kept) inside
    have needle : trim line ∈ needles insertion :=
      mem_needles.mpr ⟨List.ne_nil_of_mem trimmed, line, among, rfl⟩
    rw [none] at needle
    exact List.not_mem_nil needle
  rw [trim, Cuts.trim, List.dropWhile_eq_nil_iff.mpr blank, List.rdropWhile_nil]

theorem blockContainsTrimmedLines_iff {block : Text} :
    blockContainsTrimmedLines block insertion = true ↔
      Present insertion (splitInclusive block) := by
  have all : Present insertion (splitInclusive block) ↔ ∀ needle ∈ needles insertion,
      ∃ other ∈ splitInclusive block, trim other = needle := by
    simp only [mem_needles, Present]
    constructor
    · rintro present _ ⟨nonempty, line, member, rfl⟩
      exact present line member nonempty
    · intro present line member nonempty
      exact present _ ⟨nonempty, line, member, rfl⟩
  rw [all, blockContainsTrimmedLines]
  split
  · rename_i blank
    rw [trim_eq_nil_of_needles blank, blank]
    simp
  · rw [List.all_eq_true]
    simp only [List.any_eq_true, lines, List.mem_map, beq_iff_eq, exists_exists_and_eq_and,
      trim_stripEnding]

/-- The block before the marker has the insertion. -/
def Held (marker : Text) (front : List Text) (insertion : Text) : Prop :=
  ∃ block, blockOf marker front = some block ∧ Present insertion block

theorem held_iff (found : Found marker (splitInclusive content) front line back) :
    ((markerBlock content marker).any fun block => blockContainsTrimmedLines block insertion) =
      true ↔ Held marker front insertion := by
  rw [markerBlock_of_found found, Held]
  cases last : blockOf marker front with
  | none => simp
  | some block =>
    have areLines : splitInclusive block.flatten = block := by
      rw [blockOf, Option.bind_eq_some_iff] at last
      obtain ⟨start, -, from_⟩ := last
      obtain ⟨before, whole⟩ := lastFrom_suffix from_
      have lines := isLine_of_split found.split
      have split := splitInclusive_flatten (fun piece member =>
        lines piece (whole ▸ List.mem_append_right before member)) []
      rwa [List.append_nil, splitInclusive, List.append_nil] at split
    rw [Option.map_some, Option.any_some, blockContainsTrimmedLines_iff, areLines]
    simp

/-- A marker is found in one place. -/
theorem Found.unique (found : Found marker all front line back)
    (another : Found marker all before other behind) :
    front = before ∧ line = other ∧ back = behind := by
  have opens {first : Text} {rest : List Text} (carries : Carries marker first) :
      Cuts.Opens (fun line => decide (Carries marker line)) (first :: rest) := by
    intro item head
    cases head
    exact decide_eq_true carries
  have same := Cuts.free_append_inj (fun item member => decide_eq_false (found.before item member))
    (opens found.carries) (fun item member => decide_eq_false (another.before item member))
    (opens another.carries) (found.split.symm.trans another.split)
  exact ⟨same.1, List.cons.inj same.2⟩

theorem Found.count (found : Found marker all front line back) :
    all.countP (fun line => Carries marker line) = 1 := by
  have before : front.countP (fun line => Carries marker line) = 0 := by
    rw [List.countP_eq_zero]
    simpa using found.before
  have behind : back.countP (fun line => Carries marker line) = 0 := by
    rw [List.countP_eq_zero]
    simpa using found.behind
  rw [found.split, List.countP_append, List.countP_cons_of_pos (by simpa using found.carries),
    before, behind]

/-- The marker is still the one that is found behind more lines that do not carry it. -/
theorem Found.grown {more : List Text} (found : Found marker all front line back)
    (foreign : ∀ other ∈ more, ¬ Carries marker other) :
    Found marker (front ++ more ++ line :: back) (front ++ more) line back := by
  refine ⟨rfl, found.carries, fun other member => ?_, found.behind⟩
  exact (List.mem_append.mp member).elim (found.before other) (foreign other)

theorem insertBeforeMarker_held (found : Found marker (splitInclusive content) front line back)
    (held : Held marker front insertion) :
    insertBeforeMarker content marker insertion = .ok content := by
  rw [insertBeforeMarker, if_pos ((held_iff found).mpr held)]

theorem insertBeforeMarker_added (found : Found marker (splitInclusive content) front line back)
    (missing : ¬ Held marker front insertion) :
    insertBeforeMarker content marker insertion =
      .ok (front.flatten ++ insertion ++ (line :: back).flatten) := by
  obtain ⟨before, behind, -⟩ := found.cut
  rw [insertBeforeMarker, if_neg (fun has => missing ((held_iff found).mp has)),
    findUniqueMarkerLine_of_found found]
  dsimp only
  rw [before, behind]

theorem found_of_inserted {result : Text}
    (inserted : insertBeforeMarker content marker insertion = .ok result) :
    ∃ front line back, Found marker (splitInclusive content) front line back := by
  rw [insertBeforeMarker] at inserted
  split at inserted
  · rename_i has
    cases search : findUniqueMarkerLine content marker with
    | ok index => exact found_of_ok search
    | error error =>
      rw [markerBlock, search] at has
      cases has
  · split at inserted
    · cases inserted
    · rename_i index search
      exact found_of_ok search

/-- The lines of the edited text, where the insertion is whole lines. -/
theorem Found.added (found : Found marker (splitInclusive content) front line back)
    (ended : insertion.getLast? = some '\n') :
    splitInclusive (front.flatten ++ insertion ++ (line :: back).flatten) =
      front ++ splitInclusive insertion ++ line :: back := by
  have rest : splitInclusive (line :: back).flatten = line :: back := by
    have whole := splitInclusive_flatten (isLine_of_split found.split) (line :: back).flatten
    rw [← List.flatten_append, ← found.split, flatten_splitInclusive, found.split] at whole
    exact (List.append_cancel_left whole).symm
  have middle := splitInclusive_flatten (isLine_of_ended ended) (line :: back).flatten
  rw [flatten_splitInclusive, rest] at middle
  rw [List.append_assoc, splitInclusive_flatten (isLine_of_split found.split), middle,
    List.append_assoc]

/-- The lines before the marker, behind the edit. -/
def Edited (marker : Text) (front : List Text) (insertion : Text) (after : List Text) : Prop :=
  Held marker front insertion ∧ after = front ∨
    ¬ Held marker front insertion ∧ after = front ++ splitInclusive insertion

theorem edited_exists (marker : Text) (front : List Text) (insertion : Text) :
    ∃ after, Edited marker front insertion after := by
  by_cases held : Held marker front insertion
  · exact ⟨front, Or.inl ⟨held, rfl⟩⟩
  · exact ⟨_, Or.inr ⟨held, rfl⟩⟩

/-- A line before the marker was there, or is one of the insertion. -/
theorem Edited.mem (edited : Edited marker front insertion after) (member : other ∈ after) :
    other ∈ front ∨ other ∈ splitInclusive insertion := by
  rcases edited with ⟨-, rfl⟩ | ⟨-, rfl⟩
  · exact Or.inl member
  · exact List.mem_append.mp member

/-- The edit of a text, as one of its lines. -/
theorem insertBeforeMarker_edited (found : Found marker (splitInclusive content) front line back)
    (ended : insertion.getLast? = some '\n') (edited : Edited marker front insertion after) :
    insertBeforeMarker content marker insertion = .ok (after ++ line :: back).flatten ∧
      splitInclusive (after ++ line :: back).flatten = after ++ line :: back := by
  rcases edited with ⟨held, rfl⟩ | ⟨missing, rfl⟩
  · rw [← found.split, flatten_splitInclusive, insertBeforeMarker_held found held]
    exact ⟨rfl, rfl⟩
  · have lines := found.added ended
    have text : (front ++ splitInclusive insertion ++ line :: back).flatten =
        front.flatten ++ insertion ++ (line :: back).flatten := by
      rw [List.flatten_append, List.flatten_append, flatten_splitInclusive]
    rw [text, insertBeforeMarker_added found missing]
    exact ⟨rfl, lines⟩

/-- When the lines that were added are found in the block they were added to: none of them is the
end marker, and the block starts before them, or inside them so that what they have before is there
again. -/
def Repeatable (marker : Text) (front : List Text) (insertion : Text) : Prop :=
  (∀ line ∈ splitInclusive insertion, ¬ Carries marker line) ∧
    ∃ start, startMarker marker = some start ∧
      ((∀ line ∈ splitInclusive insertion, ¬ Carries start line) ∧
          (∃ line ∈ front, Carries start line) ∨
        ∃ tail, lastFrom (Carries start) (splitInclusive insertion) = some tail ∧
          Present insertion tail)

theorem held_added (marker : Text) (front : List Text) (insertion : Text) :
    Held marker (front ++ splitInclusive insertion) insertion ↔
      ∃ start, startMarker marker = some start ∧
        ((∀ line ∈ splitInclusive insertion, ¬ Carries start line) ∧
            (∃ line ∈ front, Carries start line) ∨
          ∃ tail, lastFrom (Carries start) (splitInclusive insertion) = some tail ∧
            Present insertion tail) := by
  rw [Held, blockOf]
  cases startMarker marker with
  | none => simp
  | some start =>
    simp only [Option.bind_some, Option.some_inj, exists_eq_left', lastFrom_append]
    cases last : lastFrom (Carries start) (splitInclusive insertion) with
    | some tail =>
      have inside : ¬ ∀ line ∈ splitInclusive insertion, ¬ Carries start line := by
        rw [← lastFrom_eq_none, last]
        simp
      simp [inside]
    | none =>
      have outside := lastFrom_eq_none.mp last
      cases before : lastFrom (Carries start) front with
      | none =>
        have absent := lastFrom_eq_none.mp before
        simp only [Option.map_none]
        refine iff_of_false (by simp) ?_
        rintro (⟨-, line, member, carries⟩ | ⟨tail, impossible, -⟩)
        · exact absent line member carries
        · cases impossible
      | some block =>
        have present : Present insertion (block ++ splitInclusive insertion) :=
          fun line member _ => ⟨line, List.mem_append_right _ member, rfl⟩
        have started : ∃ line ∈ front, Carries start line := by
          by_contra absent
          push Not at absent
          rw [lastFrom_eq_none.mpr absent] at before
          cases before
        refine iff_of_true ⟨_, rfl, present⟩ (Or.inl ⟨outside, started⟩)

theorem insertBeforeMarker_again (found : Found marker (splitInclusive content) front line back)
    (ended : insertion.getLast? = some '\n') (edited : Edited marker front insertion after) :
    insertBeforeMarker (after ++ line :: back).flatten marker insertion =
        .ok (after ++ line :: back).flatten ↔
      Held marker front insertion ∨ Repeatable marker front insertion := by
  obtain ⟨-, lines⟩ := insertBeforeMarker_edited found ended edited
  rcases edited with ⟨held, rfl⟩ | ⟨missing, rfl⟩
  · rw [← found.split, flatten_splitInclusive]
    exact iff_of_true (insertBeforeMarker_held found held) (Or.inl held)
  · rw [or_iff_right missing, Repeatable, ← held_added]
    constructor
    · intro again
      obtain ⟨before, other, behind, second⟩ := found_of_inserted again
      have foreign : ∀ line ∈ splitInclusive insertion, ¬ Carries marker line := by
        have once := second.count
        have own := found.count
        rw [found.split] at own
        rw [lines] at once
        simp only [List.countP_append] at once own
        have absent : (splitInclusive insertion).countP (fun line => Carries marker line) = 0 := by
          omega
        simpa [List.countP_eq_zero] using absent
      have added := found.grown foreign
      rw [← lines] at added
      refine ⟨foreign, ?_⟩
      by_contra absent
      rw [insertBeforeMarker_added added absent] at again
      have longer := congrArg List.length (Except.ok.inj again)
      have nonempty : 0 < insertion.length := by
        apply List.length_pos_of_mem
        exact List.mem_of_getLast? ended
      simp only [List.flatten_append, List.length_append] at longer
      omega
    · rintro ⟨foreign, held⟩
      have added := found.grown foreign
      rw [← lines] at added
      exact insertBeforeMarker_held added held

/-- No line of the insertion is the start or the end of the other block. -/
def Foreign (marker insertion : Text) : Prop :=
  ∀ line ∈ splitInclusive insertion, ¬ Carries marker line ∧
    ∀ start, startMarker marker = some start → ¬ Carries start line

/-- The other marker does not stand in the block that ends here. -/
def Outside (other marker : Text) (front : List Text) : Prop :=
  ∀ block, blockOf marker front = some block → ∀ line ∈ block, ¬ Carries other line

/-- Lines outside a block do not change it. -/
theorem blockOf_edited {marker foreign : Text} {line : Text}
    (edited : Edited other before foreign after) (carries : Carries other line)
    (plain : Foreign marker foreign) (outside : Outside other marker (before ++ line :: between)) :
    blockOf marker (after ++ line :: between) = blockOf marker (before ++ line :: between) := by
  rw [Outside, blockOf] at outside
  rw [blockOf, blockOf]
  cases named : startMarker marker with
  | none => rfl
  | some start =>
    rw [named] at outside
    rw [Option.bind_some] at outside ⊢
    rw [Option.bind_some, lastFrom_append, lastFrom_append]
    rw [lastFrom_append] at outside
    cases behind : lastFrom (Carries start) (line :: between) with
    | some block => rfl
    | none =>
      rw [behind] at outside
      dsimp only at outside ⊢
      -- a block that starts before the other marker would have it inside
      have none : lastFrom (Carries start) before = none := by
        cases start : lastFrom (Carries start) before with
        | none => rfl
        | some block =>
          rw [start] at outside
          exact absurd carries (outside _ rfl line (by simp))
      have absent := lastFrom_eq_none.mp none
      have still : lastFrom (Carries start) after = Option.none := by
        rw [lastFrom_eq_none]
        intro another member
        rcases edited.mem member with was | added
        · exact absent another was
        · exact (plain another added).2 start named
      rw [none, still]

/-- The insertions, where the first marker stands before the second one. -/
theorem insertBeforeMarker_ordered {early late : Text} {one two : Text}
    (found₁ : Found first (splitInclusive content) before one (between ++ two :: behind))
    (found₂ : Found second (splitInclusive content) (before ++ one :: between) two behind)
    (ended₁ : early.getLast? = some '\n') (ended₂ : late.getLast? = some '\n')
    (plain₁ : Foreign second early) (plain₂ : Foreign first late)
    (outside : Outside first second (before ++ one :: between)) :
    ∃ middle other result, insertBeforeMarker content first early = .ok middle ∧
      insertBeforeMarker content second late = .ok other ∧
      insertBeforeMarker middle second late = .ok result ∧
      insertBeforeMarker other first early = .ok result := by
  obtain ⟨after₁, edited₁⟩ := edited_exists first before early
  obtain ⟨after₂, edited₂⟩ := edited_exists second (before ++ one :: between) late
  obtain ⟨inserted₁, lines₁⟩ := insertBeforeMarker_edited found₁ ended₁ edited₁
  obtain ⟨inserted₂, lines₂⟩ := insertBeforeMarker_edited found₂ ended₂ edited₂
  have block := blockOf_edited edited₁ found₁.carries plain₁ outside
  -- what the second insertion adds behind the first marker
  obtain ⟨more, whole, additional, again₂⟩ : ∃ more,
      after₂ = before ++ one :: (between ++ more) ∧ (∀ line ∈ more, line ∈ splitInclusive late) ∧
        Edited second (after₁ ++ one :: between) late (after₁ ++ one :: (between ++ more)) := by
    have same : Held second (after₁ ++ one :: between) late ↔
        Held second (before ++ one :: between) late := by
      rw [Held, Held, block]
    rcases edited₂ with ⟨held, rfl⟩ | ⟨missing, rfl⟩
    · exact ⟨[], by rw [List.append_nil], by simp, Or.inl ⟨same.mpr held, by simp⟩⟩
    · exact ⟨splitInclusive late, by simp, fun line member => member,
        Or.inr ⟨fun held => missing (same.mp held), by simp⟩⟩
  have next₂ : Found second (splitInclusive (after₁ ++ one :: (between ++ two :: behind)).flatten)
      (after₁ ++ one :: between) two behind := by
    refine ⟨by rw [lines₁]; simp, found₂.carries, fun other member => ?_, found₂.behind⟩
    rcases List.mem_append.mp member with inside | rest
    · rcases edited₁.mem inside with was | added
      · exact found₂.before other (List.mem_append_left _ was)
      · exact (plain₁ other added).1
    · exact found₂.before other (List.mem_append_right _ rest)
  have next₁ : Found first (splitInclusive (after₂ ++ two :: behind).flatten) before one
      (between ++ more ++ two :: behind) := by
    refine ⟨by rw [lines₂, whole]; simp, found₁.carries, found₁.before, fun other member => ?_⟩
    rw [List.mem_append, List.mem_append] at member
    rcases member with (inside | added) | rest
    · exact found₁.behind other (List.mem_append_left _ inside)
    · exact (plain₂ other (additional other added)).1
    · exact found₁.behind other (List.mem_append_right _ rest)
  refine ⟨_, _, _, inserted₁, inserted₂, (insertBeforeMarker_edited next₂ ended₂ again₂).1, ?_⟩
  rw [(insertBeforeMarker_edited next₁ ended₁ edited₁).1]
  simp

/-- The other marker does not stand in the marker's block. -/
def Apart (other marker content : Text) : Prop :=
  ∀ front line back, Found marker (splitInclusive content) front line back →
    Outside other marker front

theorem foreign_of_start (named : startMarker marker = some start)
    (plain : ∀ line ∈ splitInclusive insertion, ¬ Carries marker line ∧ ¬ Carries start line) :
    Foreign marker insertion := by
  intro line member
  refine ⟨(plain line member).1, fun other same => ?_⟩
  rw [named] at same
  cases same
  exact (plain line member).2

theorem apart_of_found (found : Found marker (splitInclusive content) front line back)
    (outside : ∀ line ∈ (blockOf marker front).getD [], ¬ Carries other line) :
    Apart other marker content := by
  intro before another behind again block last
  rw [← (found.unique again).1] at last
  rw [last] at outside
  exact outside

/-- Of two markers, one stands before the other. -/
theorem order_of_found {one two : Text} {left right : List Text}
    (different : trim first ≠ trim second) (found₁ : Found first all before one behind)
    (found₂ : Found second all left two right) :
    (∃ between, left = before ++ one :: between ∧ behind = between ++ two :: right) ∨
      ∃ between, before = left ++ two :: between ∧ right = between ++ one :: behind := by
  have apart : one ≠ two := by
    rintro rfl
    exact different (found₁.carries.symm.trans found₂.carries)
  rcases List.append_eq_append_iff.mp (found₁.split.symm.trans found₂.split) with
    ⟨shift, whole, rest⟩ | ⟨shift, whole, rest⟩
  · cases shift with
    | nil => exact absurd (List.cons.inj rest).1 apart
    | cons first between =>
      obtain ⟨rfl, rfl⟩ := List.cons.inj rest
      exact Or.inl ⟨between, whole, rfl⟩
  · cases shift with
    | nil => exact absurd (List.cons.inj rest).1.symm apart
    | cons first between =>
      obtain ⟨rfl, rfl⟩ := List.cons.inj rest
      exact Or.inr ⟨between, whole, rfl⟩

theorem insertBeforeMarker_commutes {early late middle : Text}
    (different : trim first ≠ trim second) (ended₁ : early.getLast? = some '\n')
    (ended₂ : late.getLast? = some '\n') (plain₁ : Foreign second early)
    (plain₂ : Foreign first late) (apart₁ : Apart first second content)
    (apart₂ : Apart second first content)
    (inserted₁ : insertBeforeMarker content first early = .ok middle)
    (inserted₂ : insertBeforeMarker content second late = .ok other) :
    ∃ result, insertBeforeMarker middle second late = .ok result ∧
      insertBeforeMarker other first early = .ok result := by
  obtain ⟨before, one, behind, found₁⟩ := found_of_inserted inserted₁
  obtain ⟨left, two, right, found₂⟩ := found_of_inserted inserted₂
  rcases order_of_found different found₁ found₂ with ⟨between, rfl, rfl⟩ | ⟨between, rfl, rfl⟩
  · obtain ⟨a, b, result, same₁, same₂, after₁, after₂⟩ := insertBeforeMarker_ordered found₁ found₂
      ended₁ ended₂ plain₁ plain₂ (apart₁ _ _ _ found₂)
    rw [same₁] at inserted₁
    rw [same₂] at inserted₂
    cases inserted₁
    cases inserted₂
    exact ⟨result, after₁, after₂⟩
  · obtain ⟨a, b, result, same₂, same₁, after₂, after₁⟩ := insertBeforeMarker_ordered found₂ found₁
      ended₂ ended₁ plain₂ plain₁ (apart₂ _ _ _ found₁)
    rw [same₁] at inserted₁
    rw [same₂] at inserted₂
    cases inserted₁
    cases inserted₂
    exact ⟨result, after₁, after₂⟩

/-- An edit that succeeds found the marker on one line. It left the content as it is, where the
block that ends there has each line of the insertion, or put the insertion before that line. The
same edit again changes nothing where the block had the insertion or finds what was added; and
edits at two markers commute where neither insertion has a line of the other's markers and neither
marker stands in the other's block. -/
theorem insertBeforeMarker_edits (content marker insertion result : Text)
    (ended : insertion.getLast? = some '\n')
    (inserted : insertBeforeMarker content marker insertion = .ok result) :
    (∃ front line back, Found marker (splitInclusive content) front line back ∧
      (Held marker front insertion ∧ result = content ∨
        ¬ Held marker front insertion ∧
          result = front.flatten ++ insertion ++ (line :: back).flatten) ∧
      (insertBeforeMarker result marker insertion = .ok result ↔
        Held marker front insertion ∨ Repeatable marker front insertion)) ∧
    ∀ second late other : Text, trim marker ≠ trim second → late.getLast? = some '\n' →
      Foreign second insertion → Foreign marker late → Apart marker second content →
      Apart second marker content → insertBeforeMarker content second late = .ok other →
      ∃ both, insertBeforeMarker result second late = .ok both ∧
        insertBeforeMarker other marker insertion = .ok both := by
  obtain ⟨front, line, back, found⟩ := found_of_inserted inserted
  obtain ⟨after, edited⟩ := edited_exists marker front insertion
  have text := (insertBeforeMarker_edited found ended edited).1
  rw [inserted, Except.ok.injEq] at text
  refine ⟨⟨front, line, back, found, ?_, ?_⟩, ?_⟩
  · rcases edited with ⟨held, rfl⟩ | ⟨missing, rfl⟩
    · rw [← found.split, flatten_splitInclusive] at text
      exact Or.inl ⟨held, text⟩
    · rw [List.flatten_append, List.flatten_append, flatten_splitInclusive] at text
      exact Or.inr ⟨missing, text⟩
  · rw [text]
    exact insertBeforeMarker_again found ended edited
  · intro second late other different endedLate plain₁ plain₂ apart₁ apart₂ insertedLate
    exact insertBeforeMarker_commutes different ended endedLate plain₁ plain₂ apart₁ apart₂
      inserted insertedLate

theorem insertBeforeMarker_edits_blocks : ∃ both,
    insertBeforeMarker "// a\nx\n// a:end\n// b\n// b:end\n".toList "// b:end".toList
        "y\n".toList = .ok both ∧
      insertBeforeMarker "// a\n// a:end\n// b\ny\n// b:end\n".toList "// a:end".toList
        "x\n".toList = .ok both := by
  have first : Found "// a:end".toList
      (splitInclusive "// a\n// a:end\n// b\n// b:end\n".toList) ["// a\n".toList]
      "// a:end\n".toList ["// b\n".toList, "// b:end\n".toList] :=
    ⟨by decide, by decide, by decide, by decide⟩
  have second : Found "// b:end".toList
      (splitInclusive "// a\n// a:end\n// b\n// b:end\n".toList)
      ["// a\n".toList, "// a:end\n".toList, "// b\n".toList] "// b:end\n".toList [] :=
    ⟨by decide, by decide, by decide, by decide⟩
  refine (insertBeforeMarker_edits "// a\n// a:end\n// b\n// b:end\n".toList "// a:end".toList
    "x\n".toList "// a\nx\n// a:end\n// b\n// b:end\n".toList (by decide) (by rfl)).2
    "// b:end".toList "y\n".toList "// a\n// a:end\n// b\ny\n// b:end\n".toList (by decide)
    (by decide) ?_ ?_ ?_ ?_ (by rfl)
  · exact foreign_of_start (by decide : startMarker "// b:end".toList = some "// b".toList) (by decide)
  · exact foreign_of_start (by decide : startMarker "// a:end".toList = some "// a".toList) (by decide)
  · exact apart_of_found second (by decide)
  · exact apart_of_found first (by decide)

/-- Lines in another order count as there, an edit without a start marker is made each time, and
edits of one block inside another depend on their order. -/
theorem insertBeforeMarker_scattered :
    (insertBeforeMarker "// a\nx\ny\n// a:end\n".toList "// a:end".toList "y\nx\n".toList =
        .ok "// a\nx\ny\n// a:end\n".toList ∧
      ¬ lines "y\nx\n".toList <:+: lines "// a\nx\ny\n// a:end\n".toList) ∧
    (insertBeforeMarker "// a:end\n".toList "// a:end".toList "x\n".toList =
        .ok "x\n// a:end\n".toList ∧
      insertBeforeMarker "x\n// a:end\n".toList "// a:end".toList "x\n".toList =
        .ok "x\nx\n// a:end\n".toList) ∧
    (insertBeforeMarker "// a\n// b\n// b:end\n// a:end\n".toList "// a:end".toList
        "x\n".toList = .ok "// a\n// b\n// b:end\nx\n// a:end\n".toList ∧
      insertBeforeMarker "// a\n// b\n// b:end\nx\n// a:end\n".toList "// b:end".toList
        "x\n".toList = .ok "// a\n// b\nx\n// b:end\nx\n// a:end\n".toList ∧
      insertBeforeMarker "// a\n// b\n// b:end\n// a:end\n".toList "// b:end".toList
        "x\n".toList = .ok "// a\n// b\nx\n// b:end\n// a:end\n".toList ∧
      insertBeforeMarker "// a\n// b\nx\n// b:end\n// a:end\n".toList "// a:end".toList
        "x\n".toList = .ok "// a\n// b\nx\n// b:end\n// a:end\n".toList) := by
  refine ⟨⟨by rfl, by decide⟩, ⟨by rfl, by rfl⟩, ⟨by rfl, by rfl, by rfl, by rfl⟩⟩

end DddCqrsEs.DddCli
