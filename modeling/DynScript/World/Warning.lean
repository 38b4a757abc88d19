import DynScript.Value
import DynScript.World.Files

/-!
# Warnings

What does not stop a running script: the operation at fault gives a default value instead, and the
problem is reported.
-/

namespace DynScript

/-- The problems that are only reported, with the name of the native function that met them. -/
inductive Warning where
  | concatFirst (kind : Kind)
  | notEnumerable (kind : Kind)
  | notString (method : String) (kind : Kind)
  | argumentKind (method argument expected : String) (kind : Kind)
  | notFinite (method argument shown : String)
  | notPositive (upper : Int)
  | emptyRange (lower upper : Int)
  | unparsable (code : String)
  | file (method path : String) (error : FileError)
  | unregistered (method : String)
  | said (text : String)
  deriving Repr

namespace Warning

/-- Cuts a long path or code down for a message. -/
def short (s : String) : String :=
  if s.length ≤ 32 then s else String.ofList (s.toList.take 29) ++ " ..."

/-- The wording of a file error. -/
def fileMessage (path : String) : FileError → String
  | .missing => s!"the specified file \"{short path}\" doesn't exist."
  | .notDirectory => s!"the specified directory \"{short path}\" doesn't exist."
  | .isDirectory => s!"the path \"{short path}\" is a directory."
  | .notText => s!"the file \"{short path}\" is not valid UTF-8 text."
  | .invalidPath => s!"the path string \"{short path}\" is not a valid path."
  | .nameTooLong =>
    s!"where the path string is \"{short path}\" occurred exception: " ++
    s!"[Errno 36] File name too long: {Text.quoted path}"

/-- The wording of a warning. -/
def message : Warning → String
  | concatFirst kind =>
    "In static method [$Concat]: the first argument should be array or tuple, " ++
    s!"but what have given is '{kind.word}'."
  | notEnumerable kind => s!"In static method [$Len]: '{kind.word}' is not a enumerable type."
  | notString method kind =>
    s!"In static method [${method}]: the type of '{kind.word}' is not string."
  | argumentKind method argument expected kind =>
    s!"In static method [${method}]: the argument '{argument}' should be {expected}, " ++
    s!"but given '{kind.word}'."
  | notFinite method argument shown =>
    s!"In static method [${method}]: the argument '{argument}' should be finite, " ++
    s!"but given {shown}."
  | notPositive upper =>
    s!"In static method [$RandomInt]: 'maxVal' should be positive, but given {Number.integerText upper}."
  | emptyRange lower upper =>
    s!"In static method [$RandomRange]: 'minVal' {Number.integerText lower} is greater than " ++
    s!"'maxVal' {Number.integerText upper}."
  | unparsable code => s!"In static method [$Eval]: \"{short code}\" is not a parsable string."
  | file method path error => s!"In static method [${method}]: {fileMessage path error}"
  | unregistered method => s!"In static method [Redirect : ${method}]: Method unregistered."
  | said text => text

/-- The form in which a warning is logged and collected. -/
def text (w : Warning) : String :=
  s!"[ Runtime Warning ]: {w.message}"

end Warning

end DynScript
