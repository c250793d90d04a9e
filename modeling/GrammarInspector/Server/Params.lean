import GrammarInspector.Editor.Workspace
import GrammarInspector.Server.Method

/-!
Parameters of the calls that an editor makes. A call is served only if its parameters fit.
-/

namespace GrammarInspector.Server

/-- Why the parameters of a call do not fit. -/
inductive ParamFault where
  | absent
  | unexpected (params : Json)
  | misshapen

namespace ParamFault

def message : ParamFault → String
  | .absent => "Missing params field"
  | .unexpected params => "Unexpected params: " ++ params.write
  | .misshapen => "Params do not have the shape that the method asks for"

end ParamFault

abbrev Reading := Except ParamFault

namespace Params

/-- The parameters of a call that must have some, if they have a shape. -/
def shaped (shape : Shape) (params : Option Json) : Reading Json :=
  match params with
  | none => .error .absent
  | some params => if shape.fits params then .ok params else .error .misshapen

/-- The parameters of a call that must have none. -/
def none (params : Option Json) : Reading Unit :=
  match params with
  | some params => .error (.unexpected params)
  | .none => .ok ()

/-! ## Parts -/

def natural? : Json → Option Nat
  | .integer value => value.toNat?
  | _ => .none

def flag? : Json → Option Bool
  | .bool value => some value
  | _ => .none

def uri? : Json → Option Uri
  | .text written => Uri.ofText? written
  | _ => .none

/-- The document that parameters are about, by their shape and that of the document. -/
def document? (shape document : Shape) (params : Json) : Option Uri := do
  let told ← shape.part? "textDocument" params
  uri? (← document.part? "uri" told)

def place? (params : Json) : Option Editor.Place := do
  let position ← params.field? "position"
  let line ← natural? (← Forms.position.part? "line" position)
  let character ← natural? (← Forms.position.part? "character" position)
  some ⟨line, character⟩

/-- Whether the declaration counts among the references that are asked for. -/
def countsDeclaration? (params : Json) : Option Bool := do
  match ← params.field? "context" with
  | .list items => flag? (← items.head?)
  | context => flag? (← context.field? "includeDeclaration")

/-! ## Parameters of calls -/

def shapeOf : Question → Shape
  | .hover => Forms.placeRequest
  | .definition => Forms.streamingPlaceRequest
  | .references => Forms.referencesRequest

def query? (params : Json) : Question → Option Editor.Query
  | .hover => some .hover
  | .definition => some .definition
  | .references => (countsDeclaration? params).map .references

/-- A value that parameters of the right shape always have. -/
def found (value : Option α) : Reading α :=
  match value with
  | some value => .ok value
  | .none => .error .misshapen

/-- What is asked about which place of which document. -/
def asked (question : Question) (params : Option Json) :
    Reading (Uri × Editor.Query × Editor.Place) := do
  let shape := shapeOf question
  let params ← shaped shape params
  let uri ← found (document? shape Forms.document params)
  let query ← found (query? params question)
  let place ← found (place? params)
  .ok (uri, query, place)

def openedDocument (params : Option Json) : Reading Uri := do
  let params ← shaped Forms.openedNews params
  found (document? Forms.openedNews Forms.openedDocument params)

def savedDocument (params : Option Json) : Reading Uri := do
  let params ← shaped Forms.savedNews params
  found (document? Forms.savedNews Forms.document params)

def documentOf (params : Option Json) : Method → Reading Uri
  | .opened => openedDocument params
  | .saved => savedDocument params
  | .question question => (asked question params).map (·.1)
  | _ => .error .misshapen

end Params

end GrammarInspector.Server
