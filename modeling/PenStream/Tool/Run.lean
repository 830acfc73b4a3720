import PenStream.Json.Printer
import PenStream.Playback.Scheduler
import PenStream.ProgressBar
import PenStream.Text.Fence
import PenStream.Tool.Host
import PenStream.Tool.Request

namespace PenStream.Tool

variable {m : Type → Type} [Monad m]

def textOf (bytes : ByteArray) : Except HostError String :=
  match String.fromUTF8? bytes with
  | some s => .ok s
  | none   => .error .notText

def readText (name : String) (read : m (Except HostError ByteArray)) :
    ExceptT ToolError m String := do
  match (← read) >>= textOf with
  | .ok s    => return s
  | .error e => throw (.unreadable name e)

-- A hyphen stands for the standard input, also with slashes behind it and dots between these.
def isStandardInput (path : String) : Bool :=
  match path.splitOn "/" with
  | first :: rest => first = "-" && rest.all fun part => part = "" || part = "."
  | []            => false

-- The text of an input, made ready unless it is raw.
def inputText (host : Host m) (path : String) (raw : Bool) : ExceptT ToolError m (List Char) := do
  let text ← if isStandardInput path then readText "stdin" host.inputBytes
    else readText path (host.fileBytes path)
  return if raw then text.toList else Text.prepare text.toList

-- The configuration of a picture. A size on the command line wins over that of the file.
def configOf (host : Host m) (options : RenderOptions) : ExceptT ToolError m Config := do
  let config ← match options.config with
    | none      => pure {}
    | some path => do
      match Config.parse (← readText path (host.fileBytes path)) with
      | .ok config => pure config
      | .error e   => throw (.badConfig path e)
  let config := config.withSize options.width options.height
  match config.validate with
  | .ok ()   => return config
  | .error e => throw (.setup e)

-- Whoever drives an animated session: it draws the bar, and waits where the host does.
def Host.watcher (host : Host m) (generation : UInt64) :
    Session.Watcher (StateT ProgressBar m) where
  current := return generation
  progress percent := do
    let (bar, text) := (← get).update percent
    set bar
    host.showBar text
  sleep delay := host.sleep delay

-- Plays a session with its pauses and a progress bar.
def animate (host : Host m) (generation : UInt64) (session : Session) : m (Session × Step) := do
  let (result, bar) ← (session.run (host.watcher generation)).run {}
  host.showBar bar.finish
  return result

-- Faults are reported in this order: the configuration, the text, the size of the canvas, the file.
def render (host : Host m) (options : RenderOptions) : ExceptT ToolError m Unit := do
  let config ← configOf host options
  let d := ({} : Decoder).feed (← inputText host options.input options.raw)
  if d.tally.dropped > 0 ∨ d.tally.unknown > 0 then
    host.log .warn (skippedMessage d.tally)
  let (scheduler, started) :=
    (Scheduler.ofConfig config).start d.commands config.width config.height
  match started with
  | .error e    => throw (.setup e)
  | .ok session =>
    let (session, last) ← if options.animate then
        liftM (animate host scheduler.generation session)
      else
        pure (session.finish scheduler.generation)
    if last = .cancelled then throw .cancelled
    match ← host.putImage options.output session.canvas with
    | .error e => throw (.unwritable options.output e)
    | .ok ()   =>
      host.log .info
        (renderedMessage d.commands.size config.width config.height options.output)

def decode (host : Host m) (options : DecodeOptions) : ExceptT ToolError m Unit := do
  let d := ({} : Decoder).feed (← inputText host options.input options.raw)
  if options.json then
    host.write ((report d).pretty ++ "\n")
  else
    host.write (commandLines d.commands.toList)
    host.log .info (decodedMessage d.tally)

def carryOut (host : Host m) : Request → ExceptT ToolError m Unit
  | .render options => render host options
  | .decode options => decode host options
  | .opcodes        => host.write (opcodeTable ++ "\n" ++ colorTable)

inductive Exit
  | done
  | usage
  | failed (error : ToolError)
deriving DecidableEq, Repr

def Exit.code : Exit → UInt32
  | done     => 0
  | failed _ => 1
  | usage    => 2

def run (host : Host m) (args : List String) : m Exit := do
  match Request.read args with
  | .error .usage   => return .usage
  | .error .help    => host.write helpText; return .done
  | .error .version => host.write versionText; return .done
  | .ok request     =>
    match ← (carryOut host request).run with
    | .ok ()   => return .done
    | .error e => return .failed e

end PenStream.Tool
