import Tessera.CommandLine.Program

/-! Runs the program on the files of the machine. -/

set_option autoImplicit false

namespace Tessera.CommandLine

/-- What there is at a path of the machine. A path that goes on behind a file counts as a directory: neither
can be read. A component that is too long is found out by the machine. -/
def machineEntry (path : Text) : IO Entry := do
  if let some known := unfollowed? path then return known
  try
    return .file (← IO.FS.readBinFile (String.ofList path))
  catch
    | .noFileOrDirectory .. => return .absent
    | .inappropriateType .. => return .directory
    | .invalidArgument .. => return .nameTooLong
    | error => throw error

def pathOf (arguments : List Text) : Option Text :=
  match Invocation.ofArguments arguments with
  | .ok ⟨_, some (.process subject _)⟩ => some subject.path
  | _ => none

def faultLine (fault : Fault) : String :=
  let steps := fault.place.map fun
    | .field name => name
    | .item index => String.ofList (naturalText index)
  ".".intercalate steps ++ ": " ++ fault.cause.message?.getD "not a document"

def freshEntropy : IO Nat := do
  let bytes ← IO.getRandomBytes 16
  return bytes.toList.foldl (fun value byte => 256 * value + byte.toNat) 0

end Tessera.CommandLine

open Tessera Tessera.CommandLine in
def main (arguments : List String) : IO UInt32 := do
  let arguments := arguments.map String.toList
  let entry ← match pathOf arguments with
    | some path => machineEntry path
    | none => pure .absent
  match respond arguments (fun _ => entry) (← freshEntropy) with
  | .broken _ =>
    IO.eprintln "the vocabulary cannot be read"
    return 1
  | .baffled blank =>
    IO.eprintln blank.message
    return 1
  | .ended response =>
    IO.print (String.ofList response.output)
    IO.eprint (String.ofList response.messages)
    if response.exitCode = 2 || !response.faults.isEmpty then IO.eprintln ""
    for fault in response.faults do
      IO.eprintln (faultLine fault)
    return response.exitCode.toUInt32
