import SweepPlot.Files.Change
import SweepPlot.Json.Reader
import SweepPlot.Json.Writer
import SweepPlot.Request.Document
import SweepPlot.Request.Validation
import SweepPlot.Toml.Reader
import SweepPlot.Toml.Writer
set_option autoImplicit false

namespace SweepPlot

inductive RequestFormat where
  | toml
  | json
  deriving DecidableEq, Repr

inductive RequestFileFault where
  | io (cause : IoCause)
  | malformed
  | invalid (fault : RequestFault)
  deriving DecidableEq, Repr

namespace RequestFormat

def rules : RequestFormat → DocumentRules
  | toml => .toml
  | json => .json

def read : RequestFormat → String → Option Document
  | toml => Toml.read
  | json => Json.read

def write : RequestFormat → Document → String
  | toml => Toml.write
  | json => Json.write

end RequestFormat

namespace Request

def text (format : RequestFormat) (r : Request) : String :=
  format.write r.toDocument

def ofText? (format : RequestFormat) (s : String) : Option Request :=
  (format.read s).bind (ofDocument format.rules)

def load (fs : FileSystem) (format : RequestFormat) (path : Bytes) : Except RequestFileFault Request :=
  match fs.readText path with
  | .error cause => .error (.io cause)
  | .ok text =>
    match ofText? format text with
    | none => .error .malformed
    | some request =>
      match request.validate with
      | .error fault => .error (.invalid fault)
      | .ok () => .ok request

def save (fs : FileSystem) (format : RequestFormat) (path : Bytes) (r : Request) :
    Except IoCause FileSystem :=
  fs.overwrite path (Bytes.ofText (r.text format))

end Request

end SweepPlot
