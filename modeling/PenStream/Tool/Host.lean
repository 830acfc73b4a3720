import PenStream.Canvas.Basic
import PenStream.Config.File
import PenStream.Tool.Text

namespace PenStream.Tool

inductive HostError
  | notFound
  | noDevice
  | notDirectory
  | isDirectory
  | noSpace
  | nameTooLong
  | notText
  | other (text : String)
deriving DecidableEq, Repr

def HostError.message : HostError → String
  | notFound     => "No such file or directory (os error 2)"
  | noDevice     => "No such device or address (os error 6)"
  | notDirectory => "Not a directory (os error 20)"
  | isDirectory  => "Is a directory (os error 21)"
  | noSpace      => "No space left on device (os error 28)"
  | nameTooLong  => "File name too long (os error 36)"
  | notText      => "stream did not contain valid UTF-8"
  | other text   => text

inductive ToolError
  -- A file or a stream, by its name.
  | unreadable (name : String) (reason : HostError)
  | unwritable (path : String) (reason : HostError)
  | badConfig (path : String) (reason : ConfigError)
  | setup (error : SetupError)
  | cancelled
deriving DecidableEq, Repr

namespace ToolError

def message : ToolError → String
  | unreadable name _ => "Failed to read " ++ name
  | unwritable path _ => "Failed to write " ++ path
  | badConfig path _  => "Invalid config in " ++ path
  | setup error       => error.message
  | cancelled         => "Playback was cancelled"

-- What is behind the message.
def cause? : ToolError → Option String
  | unreadable _ reason => reason.message
  | unwritable _ reason => reason.message
  | badConfig _ reason  => reason.message
  | setup _             => none
  | cancelled           => none

end ToolError

structure Host (m : Type → Type) where
  fileBytes : (path : String) → m (Except HostError ByteArray)
  inputBytes : m (Except HostError ByteArray)
  putImage : (path : String) → {s : Size} → Canvas s → m (Except HostError Unit)
  write : (text : String) → m Unit
  log : Level → (message : String) → m Unit
  -- Writes a piece of the progress bar.
  showBar : (text : String) → m Unit
  sleep : (milliseconds : Nat) → m Unit

end PenStream.Tool
