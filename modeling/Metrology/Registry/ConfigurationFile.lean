import Metrology.Catalog.Builtin
import Metrology.Registry.ConfigurationText

/-!
# Configuration files

The catalog extended by a configuration that is stored in a file.
-/

namespace Metrology

/-- The text of a file with the given bytes. -/
def FileError.decode (bytes : ByteArray) : Except FileError String :=
  match String.fromUTF8? bytes with
  | some s => .ok s
  | none => .error .notUnicode

/-- The configuration in a file, given what reading the file has brought. -/
def Configuration.ofFile (path : String) (content : Except FileError ByteArray) :
    Except (MeasureError Float) (Configuration Float) :=
  match content.bind FileError.decode with
  | .ok s => ofText s
  | .error cause => .error (.configuration (.unreadable path cause))

/-- The catalog extended by the configuration in a file, given what reading the file has brought. -/
def Registry.ofFile (path : String) (content : Except FileError ByteArray) :
    Except (MeasureError Float) (Registry Float) :=
  (Configuration.ofFile path content).bind fun c =>
    let outcome := c.apply .builtin
    outcome.result.map fun _ => outcome.registry

end Metrology
