import GrammarInspector.Text.LineIndex
import GrammarInspector.Tree.Basic

/-! # Arenas

An arena keeps the nodes of trees in one list. Nodes refer to each other by their numbers
in it: a node knows its children and its parent, and no order of the numbers is promised.
The line and column of a node are stored beside its span. Labels of alternatives are
listed apart from the nodes, and those of the rule that is being read are only kept once
it is complete. An arena grows by steps, each of which adds a node, makes one node a child
of another, lets the root show a header or deals with labels.
-/

namespace GrammarInspector

open List

namespace Arena

/-- What a node of an arena shows of itself. -/
structure Content where
  kind : NodeKind
  text : String
  span : Option Span
deriving DecidableEq, Repr

/-- A node of an arena. -/
structure Entry where
  content : Content
  /-- Line and column of the span. -/
  position : Option Position
  children : List Nat
  parent : Option Nat
deriving DecidableEq, Repr

/-- A label that was read, with its rule and its alternative. -/
structure Tag where
  label : AltLabel
  rule : Nat
  alternative : Nat
deriving DecidableEq, Repr

def Content.data (content : Content) (label : Option AltLabel) : NodeData :=
  ⟨content.kind, content.text, content.span, label⟩

end Arena

/-- Nodes that refer to each other by their numbers, and the labels of alternatives. -/
structure Arena where
  entries : List Arena.Entry
  /-- The labels of the rule that is being read. -/
  pending : List Arena.Tag
  /-- The labels of complete rules. -/
  kept : List Arena.Tag
deriving DecidableEq, Repr

namespace Arena

/-- The number of the node that every arena starts with. -/
def root : Nat := 0

def size (arena : Arena) : Nat := arena.entries.length

def tags (arena : Arena) : List Tag := arena.kept ++ arena.pending

/-- The label that was read for a node. -/
def label? (arena : Arena) (id : Nat) : Option AltLabel :=
  (arena.tags.find? (·.alternative = id)).map (·.label)

/-- What a node shows, with its label. -/
def data? (arena : Arena) (id : Nat) : Option NodeData :=
  arena.entries[id]?.map fun entry => entry.content.data (arena.label? id)

/-- The position that is stored at a node, if there is one. -/
def ownPosition? (arena : Arena) (id : Nat) : Option Position :=
  arena.entries[id]?.bind (·.position)

def children (arena : Arena) (id : Nat) : List Nat :=
  (arena.entries[id]?.map (·.children)).getD []

def parent? (arena : Arena) (id : Nat) : Option Nat := arena.entries[id]?.bind (·.parent)

/-! ## Steps -/

/-- An arena with nothing but its root. -/
def single (content : Content) : Arena := ⟨[⟨content, none, [], none⟩], [], []⟩

/-- The arena with one more node, which belongs to no other. -/
def alloc (arena : Arena) (content : Content) (position : Option Position) : Arena :=
  { arena with entries := arena.entries ++ [⟨content, position, [], none⟩] }

/-- The arena with a node as the last child of another. -/
def attach (arena : Arena) (parent child : Nat) : Arena :=
  let linked :=
    arena.entries.modify child fun entry => { entry with parent := some parent }
  { arena with
    entries := linked.modify parent fun entry =>
      { entry with children := entry.children ++ [child] } }

/-- The arena whose root shows the keyword of the header. -/
def header (arena : Arena) (text : String) (span : Span) (position : Position) : Arena :=
  { arena with
    entries := arena.entries.modify root fun entry =>
      { entry with
        content := ⟨entry.content.kind, text, some span⟩, position := some position } }

inductive Step where
  | alloc (content : Content) (position : Option Position)
  | attach (parent child : Nat)
  /-- The keyword of the header is read. -/
  | header (text : String) (span : Span) (position : Position)
  /-- The label of an alternative is read. -/
  | push (tag : Tag)
  /-- The rule is complete. -/
  | keep
  /-- The rule has failed. -/
  | drop
deriving DecidableEq, Repr

def step (arena : Arena) : Step → Arena
  | .alloc content position => arena.alloc content position
  | .attach parent child => arena.attach parent child
  | .header text span position => arena.header text span position
  | .push tag => { arena with pending := arena.pending ++ [tag] }
  | .keep => { arena with pending := [], kept := arena.kept ++ arena.pending }
  | .drop => { arena with pending := [] }

/-- The arena after some steps. -/
def after (arena : Arena) (steps : List Step) : Arena := steps.foldl step arena

@[simp] theorem after_nil (arena : Arena) : arena.after [] = arena := rfl

@[simp] theorem after_cons (arena : Arena) (first : Step) (steps : List Step) :
    arena.after (first :: steps) = (arena.step first).after steps := rfl

theorem after_append (arena : Arena) (front behind : List Step) :
    arena.after (front ++ behind) = (arena.after front).after behind :=
  foldl_append

variable {arena : Arena} {content : Content} {position : Option Position} {text : String}
  {span : Span} {place : Position} {parent child id : Nat}

/-! ## What steps change -/

@[simp] theorem size_alloc : (arena.alloc content position).size = arena.size + 1 := by
  simp [alloc, size]

@[simp] theorem size_attach : (arena.attach parent child).size = arena.size := by
  simp [attach, size]

@[simp] theorem size_header : (arena.header text span place).size = arena.size := by
  simp [header, size]

theorem getElem?_alloc : (arena.alloc content position).entries[id]? =
    if id = arena.size then some ⟨content, position, [], none⟩
    else arena.entries[id]? := by
  rw [alloc, size, getElem?_append]
  split
  · rw [if_neg (by omega)]
  · rw [getElem?_singleton]
    have beyond : arena.entries.length ≤ id := by omega
    by_cases isNew : id = arena.entries.length
    · rw [if_pos isNew, if_pos (by omega)]
    · rw [if_neg isNew, if_neg (by omega), getElem?_eq_none beyond]

theorem getElem?_size : arena.entries[arena.size]? = none :=
  getElem?_eq_none (Nat.le_refl _)

theorem data?_alloc : (arena.alloc content position).data? id =
    if id = arena.size then some (content.data (arena.label? id))
    else arena.data? id := by
  rw [data?, getElem?_alloc]
  split
  · rfl
  · rfl

@[simp] theorem children_alloc :
    (arena.alloc content position).children id = arena.children id := by
  rw [children, getElem?_alloc]
  split
  · next isNew =>
    rw [isNew, children, getElem?_size]
    rfl
  · rfl

@[simp] theorem parent?_alloc :
    (arena.alloc content position).parent? id = arena.parent? id := by
  rw [parent?, getElem?_alloc]
  split
  · next isNew =>
    rw [isNew, parent?, getElem?_size]
    rfl
  · rfl

theorem getElem?_attach : (arena.attach parent child).entries[id]? =
    arena.entries[id]?.map fun entry =>
      { content := entry.content
        position := entry.position
        children := if id = parent then entry.children ++ [child] else entry.children
        parent := if id = child then some parent else entry.parent } := by
  simp only [attach, getElem?_modify, Option.map_eq_map, Option.map_map]
  congr 1
  funext entry
  by_cases isParent : parent = id
  · by_cases isChild : child = id
    · simp [isParent, isChild]
    · simp [isParent, isChild, Ne.symm isChild]
  · by_cases isChild : child = id
    · simp [isParent, isChild, Ne.symm isParent]
    · simp [isParent, isChild, Ne.symm isParent, Ne.symm isChild]

@[simp] theorem data?_attach : (arena.attach parent child).data? id = arena.data? id := by
  rw [data?, getElem?_attach, Option.map_map]
  rfl

theorem children_attach (inside : parent < arena.size) :
    (arena.attach parent child).children id =
      if id = parent then arena.children id ++ [child] else arena.children id := by
  rw [children, getElem?_attach, children]
  by_cases isParent : id = parent
  · rw [isParent, getElem?_eq_getElem inside]
    simp
  · simp [isParent, Function.comp_def]

theorem parent?_attach (inside : child < arena.size) :
    (arena.attach parent child).parent? id =
      if id = child then some parent else arena.parent? id := by
  rw [parent?, getElem?_attach, parent?]
  by_cases isChild : id = child
  · rw [isChild, getElem?_eq_getElem inside]
    simp
  · simp only [if_neg isChild, Option.bind_map]
    rfl

theorem getElem?_header : (arena.header text span place).entries[id]? =
    arena.entries[id]?.map fun entry =>
      if id = root then
        { entry with
          content := ⟨entry.content.kind, text, some span⟩, position := some place }
      else entry := by
  simp only [header, getElem?_modify, Option.map_eq_map]
  congr 1
  funext entry
  by_cases isRoot : root = id
  · simp [isRoot]
  · simp [isRoot, Ne.symm isRoot]

theorem data?_header_root {data : NodeData} (isData : arena.data? root = some data) :
    (arena.header text span place).data? root =
      some { data with text, span := some span } := by
  obtain ⟨entry, found, rfl⟩ := Option.map_eq_some_iff.mp isData
  rw [data?, getElem?_header, found]
  rfl

theorem data?_header (notRoot : id ≠ root) :
    (arena.header text span place).data? id = arena.data? id := by
  rw [data?, getElem?_header, data?]
  simp only [if_neg notRoot, Option.map_id']
  rfl

@[simp] theorem children_header :
    (arena.header text span place).children id = arena.children id := by
  rw [children, getElem?_header, Option.map_map]
  congr 2
  funext entry
  by_cases isRoot : id = root
  · simp [isRoot]
  · simp [isRoot]

@[simp] theorem parent?_header :
    (arena.header text span place).parent? id = arena.parent? id := by
  rw [parent?, getElem?_header, Option.bind_map]
  congr 1
  funext entry
  by_cases isRoot : id = root
  · simp [isRoot]
  · simp [isRoot]

/-! ## Labels -/

theorem data?_of_entries {changed : Arena} (same : changed.entries = arena.entries)
    (label : changed.label? id = arena.label? id) :
    changed.data? id = arena.data? id := by
  rw [data?, data?, same, label]

theorem label?_eq_none (noTag : ∀ tag ∈ arena.tags, tag.alternative ≠ id) :
    arena.label? id = none := by
  have none : arena.tags.find? (·.alternative = id) = none := by simpa using noTag
  rw [label?, none]
  rfl

theorem tags_push {tag : Tag} : (arena.step (.push tag)).tags = arena.tags ++ [tag] :=
  (append_assoc ..).symm

theorem label?_push_self {tag : Tag}
    (noTag : ∀ old ∈ arena.tags, old.alternative ≠ tag.alternative) :
    (arena.step (.push tag)).label? tag.alternative = some tag.label := by
  have none : arena.tags.find? (·.alternative = tag.alternative) = none := by
    simpa using noTag
  simp [label?, tags_push, find?_append, none]

theorem label?_push {tag : Tag} (differ : id ≠ tag.alternative) :
    (arena.step (.push tag)).label? id = arena.label? id := by
  simp [label?, tags_push, find?_append, Ne.symm differ]

theorem label?_keep : (arena.step .keep).label? id = arena.label? id := by
  simp [label?, tags, step]

theorem label?_drop (noTag : ∀ tag ∈ arena.pending, tag.alternative ≠ id) :
    (arena.step .drop).label? id = arena.label? id := by
  have none : arena.pending.find? (·.alternative = id) = none := by simpa using noTag
  simp [label?, tags, step, find?_append, none]

end Arena

end GrammarInspector
