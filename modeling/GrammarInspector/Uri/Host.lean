import GrammarInspector.Uri.Address
import GrammarInspector.Uri.Domain

/-!
Hosts in normal form: names, and numeric addresses of either length.
-/

namespace GrammarInspector.Uri

/-- Characters that no host has. -/
def isForbidden (character : Char) : Bool :=
  character = '\x00' ||
    [' ', '#', '/', ':', '<', '>', '?', '@', '[', '\\', ']', '^', '|'].contains character

/-- A long address, which stands in brackets. `text` follows the first one. -/
def bracketed? (text : List Char) : Option (List Char) :=
  if text.getLast? = some ']' then
    (Address.long? text.dropLast).map fun numbers =>
      "[".toList ++ (Address.longText numbers).toList ++ "]".toList
  else none

/-- A host with a name or an address. Escapes stand for their bytes. -/
def host? : List Char → Option (List Char)
  | '[' :: text => bracketed? text
  | text => do
    let decoded ← Percent.decodeText? text
    let name ← domain? decoded.toList
    if name.isEmpty then none
    else if Address.isShort name then
      (Address.short? name).map fun bytes => (Address.shortText bytes).toList
    else some name

/-- A host that only its own scheme knows; it may be empty. -/
def privateHost? : List Char → Option (List Char)
  | '[' :: text => bracketed? text
  | text =>
    if text.any isForbidden then none else some (Percent.encode Percent.isControl text)

end GrammarInspector.Uri
