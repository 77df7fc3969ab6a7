import Mixins.FileSystem
import Mixins.Text.Quoted
import Mixins.TypeDef
import Mixins.Wire

/-!
# Failures

Why a type could not be found, changed, read or written.
-/

namespace Mixins

/-- What is wrong with something malformed. -/
inductive Defect where
  | wire (cause : Wire.Error)
  | memberName (name : String)
  | notOutermost
  | otherName (found expected : String)
  | notMarker (kind : Kind)
  /-- A defect known to the store that met it. -/
  | described (text : String)
  deriving DecidableEq, Repr, Inhabited

def Kind.display : Kind → String
  | .classType => "Class"
  | .interfaceType => "Interface"
  | .recordType => "Record"
  | .enumType => "Enum"
  | .markerType => "Marker"
  | .packageInfo => "PackageInfo"

def Defect.message : Defect → String
  | .wire cause => cause.message
  | .memberName name => "invalid member name " ++ Text.quoted name
  | .notOutermost => "only outermost types have their own file"
  | .otherName found expected => "file declares " ++ found ++ " instead of " ++ expected
  | .notMarker kind => kind.display ++ " type is not a marker type"
  | .described text => text

inductive Failure where
  | notFound (name : String)
  | duplicateMember (owner member : String)
  | malformed (context : String) (defect : Defect)
  | file (path : Path) (cause : FileError)
  deriving DecidableEq, Repr, Inhabited

def Failure.message : Failure → String
  | .notFound name => "NotFound: " ++ name
  | .duplicateMember owner member => "DuplicateMember: " ++ owner ++ " already declares " ++ member
  | .malformed context defect => "Malformed " ++ context ++ ": " ++ defect.message
  | .file path cause => "IOFailure at " ++ path.text ++ ": " ++ cause.message

def Failure.isNotFound : Failure → Bool
  | .notFound _ => true
  | _ => false

end Mixins
