import NodeInventory.Banner.Selector
import NodeInventory.Error

/-!
# Rules that read a version out of a banner

The first line that the line selector accepts is the only candidate; when it carries no token there
is no version, whatever the later lines hold.
-/

namespace NodeInventory.Banner

open Text

structure Rule where
  tool : String
  line : LineSelector
  token : TokenSelector
deriving DecidableEq, Repr

inductive RuleFault
  | emptyTool
  | emptyLineMarker
  | emptyTokenMarker
deriving DecidableEq, Repr

def RuleFault.message : RuleFault → String
  | .emptyTool => "empty tool id"
  | .emptyLineMarker => "empty line marker"
  | .emptyTokenMarker => "empty token marker"

/-- A marker that holds no more than blanks selects nothing in particular. -/
def isBlankMarker (marker : String) : Bool := trim marker.toList = []

def LineSelector.isBlank : LineSelector → Bool
  | .first => false
  | .contains text | .startsWith text => isBlankMarker text

def TokenSelector.isBlank : TokenSelector → Bool
  | .field _ => false
  | .after marker => isBlankMarker marker

namespace Rule

def fault? (rule : Rule) : Option RuleFault :=
  if isBlankMarker rule.tool then some .emptyTool
  else if rule.line.isBlank then some .emptyLineMarker
  else if rule.token.isBlank then some .emptyTokenMarker
  else none

def validate (rule : Rule) : Except InventoryError Unit :=
  match rule.fault? with
  | some fault => .error (.invalidRule rule.tool fault.message)
  | none => .ok ()

def line? (rule : Rule) (raw : List Char) : Option (List Char) :=
  (lines raw).find? rule.line.accepts

def version? (rule : Rule) (raw : List Char) : Option (List Char) :=
  (rule.line? raw).bind rule.token.capture

def extract (rule : Rule) (raw : String) : Except InventoryError (Option String) :=
  rule.validate.map fun _ => (rule.version? raw.toList).map String.ofList

end Rule

end NodeInventory.Banner
