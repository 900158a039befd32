import ByteRoutines.Text.Decimal

/-!
# Errors in override texts

What can be wrong with an override text, and the sentence that says so. Every
error carries the text it is about.
-/

namespace ByteRoutines.Config

inductive Error
  | unknownOperation (name : String)
  | unknownVariant (name : String)
  /-- An entry of the list that has no colon. -/
  | malformedPair (entry : String)
  /-- A threshold text that is not three ranges, the last one unbounded. -/
  | malformedThreshold (raw : String)
  | invalidNumber (value : String) (fault : Text.NumberFault)
  /-- A threshold text whose ranges overlap or run backwards. -/
  | unorderedThreshold (raw : String)
  deriving DecidableEq

namespace Error

/-- A text between grave accents. -/
def quoted (text : String) : String := "`" ++ text ++ "`"

def message : Error → String
  | unknownOperation name => "unknown operation " ++ quoted name
  | unknownVariant name => "unknown variant " ++ quoted name
  | malformedPair entry =>
    "malformed operation override " ++ quoted entry ++ ", expected operation:variant"
  | malformedThreshold raw => "malformed threshold " ++ quoted raw
  | invalidNumber value fault => "invalid number " ++ quoted value ++ ": " ++ fault.message
  | unorderedThreshold raw => "threshold ranges out of order: " ++ raw

end Error

end ByteRoutines.Config
