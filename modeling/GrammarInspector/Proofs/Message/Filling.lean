import GrammarInspector.Check.GrammarFile

/-! # How templates are filled

A template is characters and places of arguments. Filling all places at once gives what
filling them one kind after the other gives, but for marks that come with an argument: in
the argument of a later place, the marks of earlier arguments are filled too.
-/

namespace GrammarInspector

open List

namespace Text

variable {pattern replacement text rest : List Char}

/-! ## Replacing in parts -/

theorem prefix_append_iff (apart : ∀ next ∈ rest.head?, next ∉ pattern) :
    pattern <+: text ++ rest ↔ pattern <+: text := by
  constructor
  · intro begins
    rcases prefix_or_prefix_of_prefix begins (prefix_append text rest) with
      done | ⟨more, rfl⟩
    · exact done
    · cases more with
      | nil => simp only [append_nil, prefix_rfl]
      | cons next more =>
        obtain ⟨behind, rfl⟩ := (prefix_append_right_inj text).mp begins
        exact absurd (by simp) (apart next rfl)
  · exact fun begins => begins.trans (prefix_append text rest)

theorem replaceFrom_append {skip : Nat} (inside : skip ≤ text.length)
    (apart : ∀ next ∈ rest.head?, next ∉ pattern) :
    replaceFrom pattern replacement skip (text ++ rest) =
      replaceFrom pattern replacement skip text ++ replaceFrom pattern
        replacement 0 rest := by
  induction text generalizing skip with
  | nil =>
    cases Nat.le_zero.mp inside
    rfl
  | cons character text induction =>
    cases skip with
    | succ skip =>
      rw [cons_append, replaceFrom, replaceFrom,
        induction (Nat.le_of_succ_le_succ inside)]
    | zero =>
      have same := @prefix_append_iff pattern (character :: text) rest apart
      rw [cons_append] at same ⊢
      rw [replaceFrom, replaceFrom]
      simp only [ isPrefixOf_iff_prefix, same]
      split
      · next begins =>
        have fits := begins.length_le
        rw [length_cons] at fits
        rw [induction (by omega), append_assoc]
      · rw [induction (Nat.zero_le _), cons_append]

theorem replace_append (apart : ∀ next ∈ rest.head?, next ∉ pattern) :
    replace pattern replacement (text ++ rest) =
      replace pattern replacement text ++ replace pattern replacement rest :=
  replaceFrom_append (Nat.zero_le _) apart

theorem replace_of_not_infix (none : ¬ pattern <:+: text) :
    replace pattern replacement text = text := by
  unfold replace
  induction text with
  | nil => rfl
  | cons character text induction =>
    have noPrefix : ¬ pattern <+: character :: text := fun begins => none begins.isInfix
    have shorter : ¬ pattern <:+: text := fun inside => none (infix_cons inside)
    rw [replaceFrom, if_neg (by rwa [ isPrefixOf_iff_prefix]), induction shorter]

end Text

namespace Template

variable {index : Fin 3} {character : Char}

/-- How the place of an argument is marked. -/
def mark : Fin 3 → List Char
  | 0 => ['<', 'a', 'r', 'g', '>']
  | 1 => ['<', 'a', 'r', 'g', '2', '>']
  | 2 => ['<', 'a', 'r', 'g', '3', '>']

/-- The mark that a text begins with. -/
def mark? (text : List Char) : Option (Fin 3) :=
  [0, 1, 2].find? fun index => (mark index).isPrefixOf text

/-- What a template is made of. -/
inductive Item where
  | plain (character : Char)
  | place (index : Fin 3)
deriving DecidableEq

/-- The items of a template. `skip` characters still belong to the mark that
was found last. -/
def itemsFrom : (skip : Nat) → List Char → List Item
  | _, [] => []
  | skip + 1, _ :: rest => itemsFrom skip rest
  | 0, character :: rest =>
    match mark? (character :: rest) with
    | some index => .place index :: itemsFrom ((mark index).length - 1) rest
    | none => .plain character :: itemsFrom 0 rest

def items (template : List Char) : List Item := itemsFrom 0 template

/-- What stands for an item in the filled template. -/
def Item.fill (arguments : Fin 3 → List Char) : Item → List Char
  | .plain character => [character]
  | .place index => arguments index

/-- The template with all its places filled at once. -/
def fill (arguments : Fin 3 → List Char) (template : List Char) : List Char :=
  (items template).flatMap (Item.fill arguments)

/-- Whether no mark can begin outside of the places, and none can reach behind one. -/
def isGuarded : List Item → Bool
  | [] => true
  | .plain character :: rest => character ≠ '<' && isGuarded rest
  | [.place _] => true
  | .place _ :: .plain next :: rest =>
    !(['<', 'a', 'r', 'g', '2', '3', '>'].contains next) &&
      isGuarded (.plain next :: rest)
  | .place _ :: .place _ :: _ => false

theorem isGuarded_of_spelled {template : String} {characters : List Char}
    (spelled : template = String.ofList characters)
    (guarded : isGuarded (items characters) = true) :
    isGuarded (items template.toList) = true := by
  rw [spelled, String.toList_ofList]
  exact guarded

theorem isGuarded_items (kind : MessageKind) :
    isGuarded (items kind.template.toList) = true := by
  -- Reading the template as a list of characters spares the check from
  -- decoding its bytes.
  cases kind <;> exact isGuarded_of_spelled rfl (by decide +kernel)

/-! ## Filling at once and one kind after the other -/

theorem exists_mark_eq (index : Fin 3) : ∃ rest, mark index = '<' :: rest := by
  match index with
  | 0 => exact ⟨_, rfl⟩
  | 1 => exact ⟨_, rfl⟩
  | 2 => exact ⟨_, rfl⟩

/-- The characters that marks are made of. -/
theorem contains_of_mem_mark (member : character ∈ mark index) :
    ['<', 'a', 'r', 'g', '2', '3', '>'].contains character = true := by
  have all : (mark index).all ['<', 'a', 'r', 'g', '2', '3', '>'].contains = true := by
    match index with
    | 0 => rfl
    | 1 => rfl
    | 2 => rfl
  exact all_eq_true.mp all character member

theorem prefix_of_mark? {text : List Char} (found : mark? text = some index) :
    mark index <+: text := by
  unfold mark? at found
  have begins := find?_some found
  exact isPrefixOf_iff_prefix.mp begins

theorem fillFrom_mark (skip : Nat) (text : List Char) :
    (itemsFrom skip text).flatMap (Item.fill mark) = text.drop skip := by
  fun_induction itemsFrom skip text with
  | case1 => exact drop_nil.symm
  | case2 skip character rest induction => exact induction
  | case3 character rest index found induction =>
    obtain ⟨behind, whole⟩ := prefix_of_mark? found
    obtain ⟨tail, mark_eq⟩ := exists_mark_eq index
    rw [flatMap_cons, induction, Item.fill, drop_zero, ← whole]
    rw [mark_eq, cons_append] at whole ⊢
    rw [← (List.cons.inj whole).2, length_cons, Nat.add_sub_cancel, drop_left]
    rfl
  | case4 character rest none induction =>
    rw [flatMap_cons, induction]
    rfl

/-- Every place is cut out of the template as its mark, and the rest of the
template is kept. -/
theorem fill_mark (template : List Char) : fill mark template = template :=
  fillFrom_mark 0 template

theorem fill_congr {first second : Fin 3 → List Char} {template : List Char}
    (same : ∀ index, .place index ∈ items template → first index = second index) :
    fill first template = fill second template := by
  have sameItem : ∀ item ∈ items template, Item.fill first item =
      Item.fill second item := by
    intro item member
    cases item with
    | plain character => rfl
    | place index => exact same index member
  rw [fill, fill, flatMap_def, flatMap_def, map_congr_left sameItem]

theorem replace_cons {replacement : List Char} (other : character ≠ '<')
    (text : List Char) :
    Text.replace (mark index) replacement (character :: text) =
      character :: Text.replace (mark index) replacement text := by
  obtain ⟨tail, mark_eq⟩ := exists_mark_eq index
  have noPrefix : ¬ mark index <+: character :: text := by
    rw [mark_eq, cons_prefix_cons]
    exact fun begins => other begins.1.symm
  rw [Text.replace, Text.replaceFrom, if_neg (by rwa [ isPrefixOf_iff_prefix]),
    Text.replace]

/-- Replacing a mark in a filled template replaces it in each argument. -/
theorem replace_flatMap {items : List Item} (guarded : isGuarded items = true)
    (index : Fin 3) (replacement : List Char) (arguments : Fin 3 → List Char) :
    Text.replace (mark index) replacement (items.flatMap (Item.fill arguments)) =
      items.flatMap (Item.fill fun place => Text.replace (mark index) replacement
        (arguments place)) := by
  fun_induction isGuarded items with
  | case1 => rfl
  | case2 character rest induction =>
    rw [Bool.and_eq_true, decide_eq_true_iff] at guarded
    rw [flatMap_cons, flatMap_cons, ← induction guarded.2]
    exact replace_cons guarded.1 _
  | case3 place => simp [Item.fill]
  | case4 place next rest induction =>
    rw [Bool.and_eq_true, Bool.not_eq_true'] at guarded
    have apart : next ∉ mark index := by
      intro member
      rw [contains_of_mem_mark member] at guarded
      cases guarded.1
    have parts := @Text.replace_append (mark index) replacement (arguments place)
      ((Item.plain next :: rest).flatMap (Item.fill arguments))
        (by rintro first ⟨⟩; exact apart)
    rw [induction guarded.2] at parts
    exact parts
  | case5 => cases guarded

theorem replace_fill (kind : MessageKind) (index : Fin 3) (replacement : List Char)
    (arguments : Fin 3 → List Char) :
    Text.replace (mark index) replacement (fill arguments kind.template.toList) =
      fill (fun place => Text.replace (mark index) replacement (arguments place))
        kind.template.toList :=
  replace_flatMap (isGuarded_items kind) index replacement arguments

end Template

namespace Message

/-- An argument as the text of the message shows it: the marks of earlier arguments in it
are filled, those of the second argument before those of the first. -/
def shown (message : Message) : Fin 3 → List Char
  | 0 => message.argument 0
  | 1 => Text.replace (Template.mark 0) (message.argument 0) (message.argument 1)
  | 2 => Text.replace (Template.mark 0) (message.argument 0)
      (Text.replace (Template.mark 1) (message.argument 1) (message.argument 2))

theorem replace_mark (message : Message) (place : Fin 3) :
    Text.replace (Template.mark 0) (message.argument 0)
      (Text.replace (Template.mark 1) (message.argument 1)
        (Text.replace (Template.mark 2) (message.argument 2) (Template.mark place))) =
      message.shown place := by
  have self (index : Fin 3) (replacement : List Char) :
      Text.replace (Template.mark index) replacement (Template.mark index) =
        replacement := by
    match index with
    | 0 => exact append_nil _
    | 1 => exact append_nil _
    | 2 => exact append_nil _
  have other {index place : Fin 3} (different : ¬ Template.mark index <:+:
      Template.mark place) (replacement : List Char) :
      Text.replace (Template.mark index) replacement (Template.mark place) =
        Template.mark place :=
    Text.replace_of_not_infix different
  match place with
  | 0 => rw [other (by decide), other (by decide), self, shown]
  | 1 => rw [other (by decide), self, shown]
  | 2 => rw [self, shown]

/-- The text is the template with all places filled at once by the arguments as
they are shown. -/
theorem text_eq_fill_shown (message : Message) :
    message.text = String.ofList
      (Template.fill message.shown message.kind.template.toList) := by
  have marks : "<arg>".toList = Template.mark 0 ∧ "<arg2>".toList = Template.mark 1 ∧
      "<arg3>".toList = Template.mark 2 := by decide
  rw [text, marks.1, marks.2.1, marks.2.2]
  apply congrArg String.ofList
  calc Text.replace (Template.mark 0) (message.argument 0)
        (Text.replace (Template.mark 1) (message.argument 1)
          (Text.replace (Template.mark 2) (message.argument 2)
            message.kind.template.toList))
      = Text.replace (Template.mark 0) (message.argument 0)
          (Text.replace (Template.mark 1) (message.argument 1)
            (Text.replace (Template.mark 2) (message.argument 2)
              (Template.fill Template.mark message.kind.template.toList))) := by
        rw [Template.fill_mark]
    _ = Template.fill message.shown message.kind.template.toList := by
        rw [Template.replace_fill, Template.replace_fill, Template.replace_fill]
        exact Template.fill_congr fun place _ => message.replace_mark place

/-- Without marks of earlier arguments an argument is shown as it is. -/
theorem shown_eq_argument {message : Message} {index : Fin 3}
    (plain : ∀ earlier < index, ¬ Template.mark earlier <:+: message.argument index) :
    message.shown index = message.argument index := by
  match index with
  | 0 => rfl
  | 1 => exact Text.replace_of_not_infix (plain 0 (by decide))
  | 2 =>
    have inner : Text.replace (Template.mark 1) (message.argument 1)
        (message.argument 2) =
        message.argument 2 := Text.replace_of_not_infix (plain 1 (by decide))
    rw [shown, inner]
    exact Text.replace_of_not_infix (plain 0 (by decide))

/-- The text of a message is its template with all places filled at once by the arguments
as they are shown. If no argument that has a place there contains the mark of an earlier
argument, that is by the arguments as they are. -/
theorem text_fills_template (message : Message) :
    message.text =
      String.ofList (Template.fill message.shown message.kind.template.toList) ∧
    ((∀ index, .place index ∈ Template.items message.kind.template.toList →
        ∀ earlier < index, ¬ Template.mark earlier <:+: message.argument index) →
      message.text = String.ofList (Template.fill (fun index => message.argument index)
          message.kind.template.toList)) := by
  refine ⟨message.text_eq_fill_shown, fun plain => ?_⟩
  rw [text_eq_fill_shown]
  exact congrArg String.ofList
    (Template.fill_congr fun index isPlace => shown_eq_argument (plain index isPlace))

/-- The marks of its own place and of later places stay in an argument. -/
theorem text_fills_template_marked : let message : Message :=
  ⟨.altLabelRedef, "G.g4", ⟨1, 0⟩, ⟨0, 1⟩, ["<arg3>", "<arg2>", "<arg3>"]⟩
    message.text =
      "rule alt label <arg3> redefined in rule <arg2>, originally in rule <arg3>" := by
  intro message
  have plain : ∀ index, .place index ∈ Template.items message.kind.template.toList →
      ∀ earlier < index, ¬ Template.mark earlier <:+: message.argument index := by
    decide +kernel
  rw [(text_fills_template message).2 plain]
  decide +kernel

/-- The description of a syntax error quotes a literal with a mark, and the mark is filled
with the literal. -/
theorem text_fills_quoted_mark : let message : Message :=
  ⟨.syntaxError, "G.g4", ⟨1, 8⟩, ⟨8, 15⟩,
      ["'<arg>'", "mismatched input ''<arg>'' expecting an identifier"]⟩
    (GrammarFile.ofSource "G.g4" "grammar '<arg>';\n").syntaxMessages = [message] ∧
      message.text =
        "syntax error: mismatched input '''<arg>''' expecting an identifier" ∧
      message.text ≠ String.ofList (Template.fill (fun index => message.argument index)
        message.kind.template.toList) := by
  decide +kernel

end Message

end GrammarInspector
