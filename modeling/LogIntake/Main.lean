import LogIntake.Connection
import LogIntake.Load.Options
import LogIntake.Output.Lines
import LogIntake.Settings.Resolve

/-!
# The program

The collector takes one connection, on its standard input, and puts the entries where its settings
say. As `load` it writes the batches of a load run to its standard output instead, all workers'
shares one after the other.
-/
set_option autoImplicit false

namespace LogIntake.Program

def failureOf : IO.Error → Transport.Failure
  | .noFileOrDirectory .. => .notFound
  | .permissionDenied .. => .permissionDenied
  | _ => .other

def readFile (path : String) : IO (Except Transport.Failure Bytes) := do
  try
    let bytes ← IO.FS.readBinFile path
    return .ok bytes.data.toList
  catch failure => return .error (failureOf failure)

def writeBytes (output : IO.FS.Stream) (bytes : Bytes) : IO Unit := do
  output.write ⟨bytes.toArray⟩
  output.flush

def logEvent (event : Event) : IO Unit :=
  let fields := event.fields.map fun (name, text) => s!" {name}={text}"
  IO.eprintln (event.level.name ++ " " ++ event.message ++ String.join fields)

def deliver (output : Output) (batch : Batch) : IO Unit := do
  match output with
  | .lines =>
    let lines := ({} : Output.Lines).writeBatch (fun _ => .whole) batch
    writeBytes (← IO.getStdout) lines.content
  | output => (output.events batch).forM logEvent

partial def collect (input : IO.FS.Stream) (output : Output) (connection : Connection) :
    IO Exit := do
  let piece ← input.read 16384
  let (frames, standing) := connection.receive (.bytes piece.data.toList)
  (frames.flatMap Frame.delivery).forM (deliver output)
  match standing with
  | .ok connection => collect input output connection
  | .error exit => return exit

def farewell : Exit → String
  | .endOfStream => "end of stream"
  | .closed => "closed"
  | .fault fault => fault.message
  | .transport failure => failure.description

def refuse (refusal : CommandLine.Refusal) : IO UInt32 := do
  match refusal with
  | .displayHelp =>
    IO.println "usage: log-intake [OPTIONS], or log-intake load [OPTIONS] TAG COUNT"
    return 0
  | .displayVersion =>
    IO.println "log-intake 0.1.0"
    return 0
  | _ =>
    IO.eprintln "error: invalid command line"
    return 2

def collector (arguments : List String) : IO UInt32 := do
  let path? := (Overrides.read arguments).toOption.bind Overrides.file
  let file ← match path? with
    | some path => readFile path
    | none => pure (.error .notFound)
  match Settings.resolve (fun _ => file) arguments with
  | .error (.commandLine refusal) => refuse refusal
  | .error fault =>
    IO.eprintln ("Error: " ++ fault.message)
    return 1
  | .ok settings =>
    let exit ← collect (← IO.getStdin) settings.output { limit := settings.maxFrameSize.toNat }
    IO.eprintln (farewell exit)
    return 0

/-- The load generator. Times are seconds of a clock that starts anywhere. -/
def loader (arguments : List String) : IO UInt32 := do
  match Load.Options.read arguments with
  | .error refusal => refuse refusal
  | .ok options =>
    match options.plan with
    | .error misfit =>
      IO.eprintln ("log-intake load: " ++ misfit.message)
      return 255
    | .ok plan =>
      let output ← IO.getStdout
      for share in Load.shares plan.batches plan.workers do
        for _ in [0:share.toNat] do
          let time := (← IO.monoMsNow) / 1000
          writeBytes output (plan.batchBytes (UInt64.ofNat time))
      return 0

end LogIntake.Program

def main (arguments : List String) : IO UInt32 :=
  match arguments with
  | "load" :: rest => LogIntake.Program.loader rest
  | arguments => LogIntake.Program.collector arguments
