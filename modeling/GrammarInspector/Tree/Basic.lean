import GrammarInspector.Text.Span
import GrammarInspector.Token.Scan
import GrammarInspector.Tree.Kind

/-!
The tree of a grammar.

A node holds its kind, its text and, if it was built from a token, the span of that token.
Nodes that only give structure have no span of their own; `Tree.anchor` says where such a
node begins.
-/

namespace GrammarInspector

/-- The name that an alternative of a parser rule was given behind a `#`. -/
structure AltLabel where
  name : String
  span : Span
deriving DecidableEq, Repr

/-- What a tree holds at one of its nodes. -/
structure NodeData where
  kind : NodeKind
  text : String
  /-- The span of the token that the node was built from. -/
  span : Option Span
  /-- The label of an alternative; no other node has one. -/
  label : Option AltLabel
deriving DecidableEq, Repr

/-- A node together with everything below it. -/
inductive Tree where
  | node (data : NodeData) (children : List Tree)

namespace Tree

def data : Tree → NodeData
  | .node data _ => data

def children : Tree → List Tree
  | .node _ children => children

def kind (tree : Tree) : NodeKind := tree.data.kind

def text (tree : Tree) : String := tree.data.text

def span (tree : Tree) : Option Span := tree.data.span

@[simp] theorem data_node (data : NodeData) (children : List Tree) :
    (node data children).data = data := rfl

@[simp] theorem children_node (data : NodeData) (children : List Tree) :
    (node data children).children = children := rfl

/-! ## Building trees -/

/-- A leaf with the text of a token. -/
def leaf (kind : NodeKind) (token : Token) : Tree :=
  .node ⟨kind, token.text, some token.span, none⟩ []

/-- A node whose text is fixed by its kind, built from the token at `span`. -/
def builtAt (kind : NodeKind) (span : Option Span) (children : List Tree) : Tree :=
  .node ⟨kind, kind.fixedText?.getD "", span, none⟩ children

/-- A node that only groups its children. -/
def group (kind : NodeKind) (children : List Tree) : Tree := builtAt kind none children

/-- The tree with more children behind its own. -/
def append (tree : Tree) (more : List Tree) : Tree :=
  .node tree.data (tree.children ++ more)

/-- The tree with a label at its root. -/
def withLabel (label : AltLabel) : Tree → Tree
  | .node data children => .node { data with label := some label } children

/-! ## Recursion over trees -/

/-- Proves a statement for all trees from one step: it holds of a tree if it holds of
its children. -/
theorem inductionOn {motive : Tree → Prop} (tree : Tree)
    (step : ∀ data children, (∀ child ∈ children, motive child) →
      motive (.node data children)) :
    motive tree := by
  cases tree with
  | node data children =>
    exact step data children fun child _ => inductionOn child step

mutual

def size : Tree → Nat
  | .node _ children => sizeAll children + 1

def sizeAll : List Tree → Nat
  | [] => 0
  | tree :: rest => tree.size + sizeAll rest

end

mutual

/-- Where a node begins: the span of its own token, or else where its first
child begins. -/
def anchor : Tree → Option Span
  | .node data children => data.span.or (anchorFirst children)

/-- Where the first of some trees begins. -/
def anchorFirst : List Tree → Option Span
  | [] => none
  | tree :: _ => tree.anchor

end

mutual

/-- The tree as an expression: a leaf is its text, and another node is its text and its
children in parentheses. -/
def expression : Tree → String
  | .node data [] => data.text
  | .node data (first :: rest) => "(" ++ data.text ++ expressions (first :: rest) ++ ")"

/-- Expressions of some trees, each behind a space. -/
def expressions : List Tree → String
  | [] => ""
  | tree :: rest => " " ++ tree.expression ++ expressions rest

end

/-! ## Children -/

def firstChild? (tree : Tree) : Option Tree := tree.children.head?

def childOfKind? (tree : Tree) (kind : NodeKind) : Option Tree :=
  tree.children.find? (·.kind = kind)

/-! ## Rules -/

def ruleName? (tree : Tree) : Option String :=
  if tree.kind = .rule then tree.firstChild?.map text else none

/-- Whether the tree is a rule of the lexer, which its name tells. -/
def isLexerRule (tree : Tree) : Bool :=
  tree.kind = .rule && tree.firstChild?.any (·.kind = .tokenRef)

/-- Whether a rule is only a part of other lexer rules. -/
def isFragment (tree : Tree) : Bool :=
  (tree.childOfKind? .ruleModifiers).any fun modifiers =>
    modifiers.children.any (·.text = "fragment")

end Tree

end GrammarInspector
