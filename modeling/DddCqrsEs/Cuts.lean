import Mathlib.Data.List.DropRight
import Mathlib.Data.List.TakeWhile

/- Texts cut at their first or last separator. Nothing here names an application. -/
namespace Cuts

/-- A fact about every item of a list is decided on the list, not on the whole type. -/
instance (priority := 2000) everyItem {β : Type*} {fact : β → Prop} [DecidablePred fact]
    (items : List β) : Decidable (∀ item ∈ items, fact item) := List.decidableBAll fact items

/-- Texts are compared lawfully, whichever definition compares them first. -/
instance lawfulText : LawfulBEq (List Char) := inferInstance

variable {α : Type*}

section Separator

variable [DecidableEq α]

/-- What stands before and after the first separator. -/
@[grind =]
def cutFirst (separator : α) : List α → Option (List α × List α)
  | [] => none
  | item :: text =>
    if item = separator then some ([], text)
    else (cutFirst separator text).map (fun cut => (item :: cut.1, cut.2))

/-- What stands before and after the last separator. -/
@[grind =]
def cutLast (separator : α) (text : List α) : Option (List α × List α) :=
  (cutFirst separator text.reverse).map (fun cut => (cut.2.reverse, cut.1.reverse))

/-- The text without the word that it starts with. -/
@[grind =]
def strip (word text : List α) : Option (List α) :=
  if word.isPrefixOf text then some (text.drop word.length) else none

/-- What stands before and after the first place where the word stands. -/
@[grind =]
def cutWord (word : List α) : List α → Option (List α × List α)
  | [] => if word = [] then some ([], []) else none
  | item :: text =>
    if word.isPrefixOf (item :: text) then some ([], (item :: text).drop word.length)
    else (cutWord word text).map (fun cut => (item :: cut.1, cut.2))

variable {word text front back : List α} {separator : α}

theorem strip_eq_some {rest : List α} : strip word text = some rest ↔ text = word ++ rest := by
  rw [strip]
  split
  · rename_i starts
    rw [List.isPrefixOf_iff_prefix] at starts
    obtain ⟨back, whole⟩ := starts
    rw [← whole, List.drop_left, Option.some_inj, List.append_cancel_left_eq]
  · rename_i other
    constructor
    · intro impossible
      cases impossible
    · intro whole
      rw [whole, List.isPrefixOf_iff_prefix] at other
      exact absurd ⟨rest, rfl⟩ other

theorem cutFirst_eq_none : cutFirst separator text = none ↔ separator ∉ text := by
  induction text with
  | nil => simp [cutFirst]
  | cons item text ih =>
    rw [cutFirst]
    split
    · rename_i same
      simp [same]
    · rename_i other
      rw [Option.map_eq_none_iff, ih, List.mem_cons, not_or]
      exact ⟨fun absent => ⟨fun same => other same.symm, absent⟩, And.right⟩

theorem cutFirst_eq_some :
    cutFirst separator text = some (front, back) ↔
      text = front ++ separator :: back ∧ separator ∉ front := by
  induction text generalizing front with
  | nil => simp [cutFirst]
  | cons item text ih =>
    rw [cutFirst]
    split
    · rename_i same
      subst same
      constructor
      · intro cut
        injection cut with cut
        injection cut with empty rest
        subst empty rest
        exact ⟨rfl, List.not_mem_nil⟩
      · intro cut
        cases front with
        | nil => rw [(List.cons.inj cut.1).2]
        | cons first front =>
          exact absurd ((List.cons.inj cut.1).1 ▸ List.mem_cons_self) cut.2
    · rename_i other
      rw [Option.map_eq_some_iff]
      constructor
      · rintro ⟨⟨before, after⟩, cut, same⟩
        injection same with fronts backs
        subst fronts backs
        obtain ⟨split, free⟩ := ih.mp cut
        exact ⟨by rw [split, List.cons_append], by
          rw [List.mem_cons, not_or]
          exact ⟨fun same => other same.symm, free⟩⟩
      · intro cut
        cases front with
        | nil => exact absurd (List.cons.inj cut.1).1 other
        | cons first front =>
          rw [List.mem_cons, not_or] at cut
          obtain ⟨heads, tails⟩ := List.cons.inj cut.1
          exact ⟨(front, back), ih.mpr ⟨tails, cut.2.2⟩, by rw [heads]⟩

theorem cutLast_eq_none : cutLast separator text = none ↔ separator ∉ text := by
  rw [cutLast, Option.map_eq_none_iff, cutFirst_eq_none, List.mem_reverse]

theorem cutLast_eq_some :
    cutLast separator text = some (front, back) ↔
      text = front ++ separator :: back ∧ separator ∉ back := by
  rw [cutLast, Option.map_eq_some_iff]
  constructor
  · rintro ⟨⟨before, after⟩, cut, same⟩
    injection same with fronts backs
    subst fronts backs
    obtain ⟨split, free⟩ := (cutFirst_eq_some).mp cut
    rw [List.reverse_eq_iff] at split
    exact ⟨by simpa using split, by rwa [List.mem_reverse]⟩
  · intro cut
    refine ⟨(back.reverse, front.reverse), (cutFirst_eq_some).mpr ⟨?_, ?_⟩, ?_⟩
    · rw [cut.1]
      simp
    · rw [List.mem_reverse]
      exact cut.2
    · simp

theorem cutFirst_append (free : separator ∉ front) (back : List α) :
    cutFirst separator (front ++ separator :: back) = some (front, back) :=
  (cutFirst_eq_some).mpr ⟨rfl, free⟩

theorem cutLast_append (free : separator ∉ back) (front : List α) :
    cutLast separator (front ++ separator :: back) = some (front, back) :=
  (cutLast_eq_some).mpr ⟨rfl, free⟩

/-- The word is found where nothing before it can be a part of it. -/
theorem cutWord_append {item : α} (free : item ∉ front) (back : List α) :
    cutWord (item :: word) (front ++ (item :: word) ++ back) = some (front, back) := by
  induction front with
  | nil =>
    show cutWord (item :: word) (item :: (word ++ back)) = _
    rw [cutWord, if_pos]
    · simp
    · rw [List.isPrefixOf_iff_prefix]
      exact ⟨back, rfl⟩
  | cons first front ih =>
    rw [List.mem_cons, not_or] at free
    show cutWord (item :: word) (first :: (front ++ (item :: word) ++ back)) = _
    rw [cutWord, if_neg, ih free.2]
    · rfl
    · rw [List.isPrefixOf_iff_prefix, List.cons_prefix_cons]
      exact fun starts => free.1 starts.1

theorem eq_of_cutWord (cut : cutWord word text = some (front, back)) :
    text = front ++ word ++ back := by
  induction text generalizing front with
  | nil =>
    rw [cutWord] at cut
    split at cut
    · rename_i empty
      injection cut with cut
      injection cut with fronts backs
      subst fronts backs empty
      rfl
    · cases cut
  | cons item text ih =>
    rw [cutWord] at cut
    split at cut
    · rename_i starts
      rw [List.isPrefixOf_iff_prefix] at starts
      obtain ⟨rest, whole⟩ := starts
      injection cut with cut
      injection cut with fronts backs
      rw [← whole, List.drop_left] at backs
      subst fronts backs
      exact whole.symm
    · rw [Option.map_eq_some_iff] at cut
      obtain ⟨⟨before, after⟩, cut, same⟩ := cut
      injection same with fronts backs
      subst fronts backs
      rw [ih cut, List.cons_append, List.cons_append]

theorem cutWord_eq_none : cutWord word text = none ↔ ¬ word <:+: text := by
  induction text with
  | nil =>
    rw [cutWord, List.infix_nil]
    split
    · rename_i empty
      simp [empty]
    · rename_i other
      simp [other]
  | cons item text ih =>
    rw [cutWord, List.infix_cons_iff, not_or, ← List.isPrefixOf_iff_prefix]
    split
    · rename_i starts
      simp [starts]
    · rename_i other
      rw [Option.map_eq_none_iff, ih]
      simp [other]

/-- Every item of a text is the separator or stands in one of the pieces. -/
theorem mem_splitOn (separator : α) {item : α} (member : item ∈ text) :
    item = separator ∨ ∃ piece ∈ text.splitOn separator, item ∈ piece := by
  induction text with
  | nil => exact absurd member List.not_mem_nil
  | cons first text ih =>
    rw [List.splitOn_cons_eq_if_modifyHead]
    obtain ⟨piece, pieces, cut⟩ := List.exists_cons_of_ne_nil (List.splitOn_ne_nil separator text)
    rw [cut] at ih ⊢
    rw [List.mem_cons] at member
    split
    · rename_i same
      rcases member with here | later
      · exact Or.inl (here.trans (by simpa using same))
      · refine (ih later).imp_right ?_
        rintro ⟨part, among, inside⟩
        exact ⟨part, List.mem_cons_of_mem _ among, inside⟩
    · rw [List.modifyHead_cons]
      rcases member with here | later
      · exact Or.inr ⟨first :: piece, List.mem_cons_self, here ▸ List.mem_cons_self⟩
      · refine (ih later).imp_right ?_
        rintro ⟨part, among, inside⟩
        rcases List.mem_cons.mp among with same | more
        · exact ⟨first :: piece, List.mem_cons_self,
            List.mem_cons_of_mem _ (same ▸ inside)⟩
        · exact ⟨part, List.mem_cons_of_mem _ more, inside⟩

/-- What stands after the last separator, or the whole text. -/
@[grind =]
def afterLast (separator : α) (text : List α) : List α :=
  match cutLast separator text with
  | some (_, after) => after
  | none => text

theorem afterLast_of_free (free : separator ∉ text) : afterLast separator text = text := by
  rw [afterLast, (cutLast_eq_none).mpr free]

theorem separator_not_mem_afterLast (separator : α) (text : List α) :
    separator ∉ afterLast separator text := by
  rw [afterLast]
  split
  · rename_i cut
    exact ((cutLast_eq_some).mp cut).2
  · rename_i whole
    exact (cutLast_eq_none).mp whole

/-- Only what follows a separator counts. -/
theorem afterLast_append_cons (separator : α) (front back : List α) :
    afterLast separator (front ++ separator :: back) = afterLast separator back := by
  cases cut : cutLast separator back with
  | none =>
    have free := (cutLast_eq_none).mp cut
    rw [afterLast_of_free free, afterLast, (cutLast_eq_some).mpr ⟨rfl, free⟩]
  | some parts =>
    obtain ⟨before, after⟩ := parts
    obtain ⟨split, free⟩ := (cutLast_eq_some).mp cut
    have longer : front ++ separator :: back =
        (front ++ separator :: before) ++ separator :: after := by
      rw [split]
      simp
    rw [afterLast, afterLast, cut, (cutLast_eq_some).mpr ⟨longer, free⟩]

/-- Nor does what stands before a later one. -/
theorem afterLast_append (member : separator ∈ text) (front : List α) :
    afterLast separator (front ++ text) = afterLast separator text := by
  obtain ⟨before, after, rfl⟩ := List.append_of_mem member
  rw [← List.append_assoc, afterLast_append_cons, afterLast_append_cons]

theorem afterLast_suffix (separator : α) (text : List α) : afterLast separator text <:+ text := by
  rw [afterLast]
  split
  · rename_i before after cut
    rw [((cutLast_eq_some).mp cut).1]
    exact ⟨before ++ [separator], by simp⟩
  · exact ⟨[], rfl⟩

theorem afterLast_append_free (free : separator ∉ back) (front : List α) :
    afterLast separator (front ++ back) = afterLast separator front ++ back := by
  cases cut : cutLast separator front with
  | none =>
    have none := (cutLast_eq_none).mp cut
    rw [afterLast_of_free none, afterLast_of_free]
    rw [List.mem_append, not_or]
    exact ⟨none, free⟩
  | some parts =>
    obtain ⟨before, after⟩ := parts
    obtain ⟨rfl, none⟩ := (cutLast_eq_some).mp cut
    rw [List.append_assoc, List.cons_append, afterLast_append_cons, afterLast_append_cons,
      afterLast_of_free none, afterLast_of_free]
    rw [List.mem_append, not_or]
    exact ⟨none, free⟩

end Separator

/-- What stands before the first item that stops. -/
@[grind =]
def upTo (stops : α → Bool) (text : List α) : List α := text.takeWhile (fun item => !stops item)

/-- The text is empty, or stops at its first item. -/
def Opens (stops : α → Bool) (text : List α) : Prop := ∀ item ∈ text.head?, stops item = true

variable {stops drops : α → Bool} {front back text : List α} {item : α}

theorem upTo_append (free : ∀ item ∈ front, stops item = false) :
    upTo stops (front ++ back) = front ++ upTo stops back := by
  rw [upTo, List.takeWhile_append_of_pos]
  · rfl
  · intro item member
    rw [free item member]
    rfl

theorem upTo_starts (stops : α → Bool) (text : List α) : upTo stops text <+: text :=
  List.takeWhile_prefix _

/-- Nothing behind an item that stops counts. -/
theorem upTo_append_of_mem (member : item ∈ front) (stop : stops item = true) (back : List α) :
    upTo stops (front ++ back) = upTo stops front := by
  rw [upTo, List.takeWhile_append, if_neg]
  · rfl
  · intro passed
    have whole := (List.takeWhile_prefix _).eq_of_length passed
    rw [← whole] at member
    have kept := List.mem_takeWhile_imp member
    rw [stop] at kept
    cases kept

theorem upTo_of_opens (opens : Opens stops text) : upTo stops text = [] := by
  cases text with
  | nil => rfl
  | cons item text =>
    rw [upTo, List.takeWhile_cons_of_neg]
    rw [opens item (by simp)]
    decide

theorem upTo_append_opens (opens : Opens stops back) (front : List α) :
    upTo stops (front ++ back) = upTo stops front := by
  rw [upTo, List.takeWhile_append]
  split
  · rename_i passed
    have later : upTo stops back = [] := upTo_of_opens opens
    rw [upTo] at later
    rw [later, List.append_nil]
    exact ((List.takeWhile_prefix _).eq_of_length passed).symm
  · rfl

theorem upTo_eq_iff :
    upTo stops text = front ↔
      ∃ back, text = front ++ back ∧ (∀ item ∈ front, stops item = false) ∧ Opens stops back := by
  constructor
  · intro cut
    refine ⟨text.dropWhile (fun item => !stops item), ?_, ?_, ?_⟩
    · rw [← cut]
      exact List.takeWhile_append_dropWhile.symm
    · rw [← cut]
      intro item member
      simpa using List.mem_takeWhile_imp member
    · intro item first
      have rejected := List.head?_dropWhile_not (fun item => !stops item) text
      rw [Option.mem_def] at first
      rw [first] at rejected
      simpa using rejected
  · rintro ⟨back, rfl, free, opens⟩
    rw [upTo_append free, upTo_of_opens opens, List.append_nil]

theorem upTo_free (stops : α → Bool) (text : List α) :
    ∀ item ∈ upTo stops text, stops item = false := by
  intro item member
  simpa using List.mem_takeWhile_imp member

theorem upTo_upTo (stops others : α → Bool) (text : List α) :
    upTo stops (upTo others text) = upTo (fun item => stops item || others item) text := by
  rw [upTo, upTo, upTo, List.takeWhile_takeWhile]
  congr 1
  funext item
  cases stops item <;> cases others item <;> rfl

/-- An earlier stop does not change where the text is cut. -/
theorem upTo_upTo_of_imp {others : α → Bool}
    (included : ∀ item, others item = true → stops item = true) (text : List α) :
    upTo stops (upTo others text) = upTo stops text := by
  rw [upTo_upTo]
  congr 1
  funext item
  cases stop : others item with
  | false => rw [Bool.or_false]
  | true => rw [included item stop, Bool.or_true]

theorem upTo_of_cutFirst [DecidableEq α] {separator : α}
    (cut : cutFirst separator text = some (front, back)) : upTo (· == separator) text = front := by
  obtain ⟨split, free⟩ := (cutFirst_eq_some).mp cut
  rw [upTo_eq_iff]
  refine ⟨separator :: back, split, ?_, by simp [Opens]⟩
  intro item member
  rw [beq_eq_false_iff_ne]
  exact fun same => free (same ▸ member)

theorem upTo_of_not_mem [DecidableEq α] {separator : α} (free : separator ∉ text) :
    upTo (· == separator) text = text := by
  rw [upTo_eq_iff]
  refine ⟨[], by rw [List.append_nil], ?_, by simp [Opens]⟩
  intro item member
  rw [beq_eq_false_iff_ne]
  exact fun same => free (same ▸ member)

/-- Items of a kind, dropped from both ends (`str::trim_matches`). -/
@[grind =]
def trim (drops : α → Bool) (text : List α) : List α :=
  (text.dropWhile drops).rdropWhile drops

theorem rdropWhile_append_cons (kept : drops item = false) (front back : List α) :
    (front ++ item :: back).rdropWhile drops = front ++ item :: back.rdropWhile drops := by
  induction back using List.reverseRecOn with
  | nil => rw [List.rdropWhile_concat_neg _ _ _ (by rw [kept]; decide), List.rdropWhile_nil]
  | append_singleton back last ih =>
    rw [← List.cons_append, ← List.append_assoc]
    cases dropped : drops last with
    | true =>
      rw [List.rdropWhile_concat_pos _ _ _ dropped, List.rdropWhile_concat_pos _ _ _ dropped,
        ih]
    | false =>
      rw [List.rdropWhile_concat_neg _ _ _ (by rw [dropped]; decide),
        List.rdropWhile_concat_neg _ _ _ (by rw [dropped]; decide), List.append_assoc,
        List.cons_append]

/-- A word that neither starts nor ends with such an item is kept with what stands around it. -/
theorem trim_around {word : List α} (nonempty : word ≠ [])
    (kept : ∀ item ∈ word, drops item = false) (front back : List α) :
    trim drops (front ++ (word ++ back)) =
      front.dropWhile drops ++ (word ++ back.rdropWhile drops) := by
  have leading : (front ++ (word ++ back)).dropWhile drops =
      front.dropWhile drops ++ (word ++ back) := by
    obtain ⟨first, rest, rfl⟩ := List.exists_cons_of_ne_nil nonempty
    have stays : drops first = false := kept first List.mem_cons_self
    rw [List.dropWhile_append]
    split
    · rename_i empty
      rw [List.isEmpty_iff.mp empty, List.cons_append,
        List.dropWhile_cons_of_neg (by rw [stays]; decide)]
      rfl
    · rfl
  rcases List.eq_nil_or_concat word with empty | ⟨letters, last, rfl⟩
  · exact absurd empty nonempty
  · have stays : drops last = false := kept last (by simp)
    rw [trim, leading]
    simp only [List.concat_eq_append, List.append_assoc, List.singleton_append]
    rw [← List.append_assoc, rdropWhile_append_cons stays, List.append_assoc]

theorem rdropWhile_parts (drops : α → Bool) (text : List α) :
    ∃ back, text = text.rdropWhile drops ++ back ∧ ∀ item ∈ back, drops item = true := by
  refine ⟨(text.reverse.takeWhile drops).reverse, ?_, ?_⟩
  · rw [List.rdropWhile, ← List.reverse_append, List.takeWhile_append_dropWhile,
      List.reverse_reverse]
  · intro item member
    exact List.mem_takeWhile_imp (List.mem_reverse.mp member)

/-- A text is what is dropped off its ends, around what is kept. -/
theorem trim_parts (drops : α → Bool) (text : List α) :
    ∃ front back, text = front ++ (trim drops text ++ back) ∧
      (∀ item ∈ front, drops item = true) ∧ ∀ item ∈ back, drops item = true := by
  obtain ⟨back, whole, trailing⟩ := rdropWhile_parts drops (text.dropWhile drops)
  refine ⟨text.takeWhile drops, back, ?_, fun item => List.mem_takeWhile_imp, trailing⟩
  rw [trim, ← whole, List.takeWhile_append_dropWhile]

/-- A trimmed text does not begin with what is dropped. -/
theorem trim_cons_kept {rest : List α} (cut : trim drops text = item :: rest) :
    drops item = false := by
  have starts : trim drops text <+: text.dropWhile drops := List.rdropWhile_prefix drops _
  rw [cut] at starts
  have first : (text.dropWhile drops).head? = some item := by
    obtain ⟨back, whole⟩ := starts
    rw [← whole]
    rfl
  have kept := List.head?_dropWhile_not drops text
  rw [first] at kept
  exact kept

theorem trim_trim (drops : α → Bool) (text : List α) :
    trim drops (trim drops text) = trim drops text := by
  have leading : (trim drops text).dropWhile drops = trim drops text := by
    cases cut : trim drops text with
    | nil => rfl
    | cons item rest =>
      rw [List.dropWhile_cons_of_neg]
      rw [Bool.not_eq_true]
      exact trim_cons_kept cut
  rw [trim, leading, trim, List.rdropWhile_idempotent]

/-- What is not dropped is kept. -/
theorem mem_trim_of_kept (kept : drops item = false) (member : item ∈ text) :
    item ∈ trim drops text := by
  obtain ⟨front, back, whole, first, last⟩ := trim_parts drops text
  rw [whole, List.mem_append, List.mem_append] at member
  rcases member with before | inside | behind
  · rw [first item before] at kept
    cases kept
  · exact inside
  · rw [last item behind] at kept
    cases kept

theorem trim_cons_of_drops (dropped : drops item = true) (text : List α) :
    trim drops (item :: text) = trim drops text := by
  rw [trim, trim, List.dropWhile_cons_of_pos dropped]

theorem trim_concat_of_drops (dropped : drops item = true) (text : List α) :
    trim drops (text ++ [item]) = trim drops text := by
  rw [trim, trim, List.dropWhile_append]
  split
  · rename_i empty
    rw [List.isEmpty_iff] at empty
    rw [empty, List.dropWhile_cons_of_pos dropped, List.dropWhile_nil]
  · exact List.rdropWhile_concat_pos _ _ _ dropped

theorem mem_of_mem_trim (member : item ∈ trim drops text) : item ∈ text :=
  (List.dropWhile_sublist drops).mem (List.rdropWhile_prefix drops _ |>.sublist.mem member)

theorem trim_of_kept (kept : ∀ item ∈ text, drops item = false) : trim drops text = text := by
  have whole : text.dropWhile drops = text := by
    rw [List.dropWhile_eq_self_iff]
    intro nonempty
    rw [kept _ (List.getElem_mem _)]
    decide
  rw [trim, whole, List.rdropWhile_eq_self_iff]
  intro nonempty
  rw [kept _ (List.getLast_mem nonempty)]
  decide

/-- What stands between items of the kind, and neither starts nor ends with one. -/
theorem trim_append {drops : α → Bool} {front text back : List α}
    (leading : ∀ item ∈ front, drops item = true) (trailing : ∀ item ∈ back, drops item = true)
    (starts : ∀ item ∈ text.head?, drops item = false)
    (ends : ∀ item ∈ text.getLast?, drops item = false) :
    trim drops (front ++ (text ++ back)) = text := by
  rw [trim, List.dropWhile_append_of_pos leading]
  cases text with
  | nil =>
    rw [List.nil_append, List.dropWhile_eq_nil_iff.mpr trailing, List.rdropWhile_nil]
  | cons first text =>
    have kept : drops first = false := starts first (by simp)
    have last : drops ((first :: text).getLast (List.cons_ne_nil _ _)) = false :=
      ends _ (by simp [List.getLast?_eq_some_getLast])
    rw [List.cons_append, List.dropWhile_cons_of_neg (by rw [kept]; decide),
      ← List.cons_append, List.rdropWhile, List.reverse_append, List.dropWhile_append_of_pos,
      ← List.rdropWhile, List.rdropWhile_eq_self_iff]
    · intro nonempty
      rw [last]
      decide
    · intro item member
      exact trailing item (List.mem_reverse.mp member)

/-- A text has one front that is free of stops and followed by one. -/
theorem free_append_inj {other rest : List α} (free : ∀ item ∈ front, stops item = false)
    (opens : Opens stops back) (others : ∀ item ∈ other, stops item = false)
    (starts : Opens stops rest) (same : front ++ back = other ++ rest) :
    front = other ∧ back = rest := by
  have fronts : front = other := by
    rw [← (upTo_eq_iff).mpr ⟨back, rfl, free, opens⟩, same,
      (upTo_eq_iff).mpr ⟨rest, rfl, others, starts⟩]
  rw [fronts, List.append_cancel_left_eq] at same
  exact ⟨fronts, same⟩

end Cuts
