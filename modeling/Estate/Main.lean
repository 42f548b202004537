import Estate.Command.Run

/-! The program. -/
namespace Estate
open Storage

/-- An operation on the files of the machine; any failure is a refusal. -/
def attempt {α : Type} (operation : IO α) : IO (Option α) := do
  match ← operation.toBaseIO with
  | .ok a => return some a
  | .error _ => return none

instance : Files IO where
  kind? path := attempt do
    match (← (← IO.FS.realPath path).metadata).type with
    | .file => return .file
    | .dir => return .directory
    | _ => return .other
  readText? path := return (← attempt (IO.FS.readBinFile path)).bind String.fromUTF8?
  names? path := attempt do return (← (← IO.FS.realPath path).readDir).toList.map (·.fileName)
  makeDirectory path := do
    match ← (IO.FS.createDir path).toBaseIO with
    | .ok _ => return .made
    | .error (.alreadyExists ..) => return .present
    | .error (.noFileOrDirectory ..) => return .missing
    | .error _ => return .refused
  writeText path text := return (← attempt (IO.FS.writeFile path text)).isSome
  absolute? path := attempt do return (← IO.FS.realPath path).toString

end Estate

def main (arguments : List String) : IO UInt32 := do
  let output : Estate.Command.Output ← Estate.Command.run arguments
  IO.print output.stdout
  IO.eprint output.stderr
  return output.code.toUInt32
