import PenStream.Config.Record
import PenStream.Toml.Document

namespace PenStream

inductive ConfigError
  -- The text is not TOML, or not of the right types.
  | malformed
  | invalid (error : SetupError)
deriving DecidableEq, Repr

def ConfigError.message : ConfigError → String
  | malformed => "Failed to parse render config"
  | invalid e => e.message

namespace Config

-- Where a group is an array, items beyond its fields are passed over.
def ofToml? (text : String) : Option Config := do
  ofJson? .ignored (.object (Toml.entriesToJson (← Toml.parse? text)))

-- The configuration that a text gives, if it is a valid one.
def parse (text : String) : Except ConfigError Config :=
  match ofToml? text with
  | none   => .error .malformed
  | some c =>
    match c.validate with
    | .error e => .error (.invalid e)
    | .ok ()   => .ok c

def withSize (c : Config) (width height : Option Nat) : Config :=
  { c with width := width.getD c.width, height := height.getD c.height }

end Config

end PenStream
