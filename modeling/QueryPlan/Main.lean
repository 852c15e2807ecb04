import QueryPlan.Command

/-! The command on the files, the streams and the environment of a process. -/

namespace QueryPlan.Command

def FileError.ofProcess : IO.Error → FileError
  | .noFileOrDirectory .. => .missing
  | .inappropriateType _ 20 _ => .notAFolder
  | .inappropriateType _ 21 _ => .isAFolder
  | .permissionDenied _ number reason => .refused number.toNat reason
  | .resourceExhausted _ number reason => .refused number.toNat reason
  | .hardwareFault number reason => .refused number.toNat reason
  | .otherError number reason => .refused number.toNat reason
  | e => .refused 5 (toString e)

def attempt {α : Type} (act : IO α) : IO (Except FileError α) := do
  match ← act.toBaseIO with
  | .ok a => return .ok a
  | .error e => return .error (.ofProcess e)

def reading (act : IO ByteArray) : IO (Except FileError String) := do
  match ← attempt act with
  | .ok bytes =>
    match String.fromUTF8? bytes with
    | some text => return .ok text
    | none => return .error .notText
  | .error e => return .error e

def processSurroundings : Surroundings IO where
  input := do reading (← IO.getStdin).readBinToEnd
  read path := reading (IO.FS.readBinFile path)
  write path text := attempt (IO.FS.writeFile path text)
  print text := IO.print text
  complain text := IO.eprint text

def processSettings : IO Settings := do
  let names := [Settings.earlyProjectionVariable, Settings.catalogueVariable, Settings.logVariable]
  let values ← names.mapM fun name => do return (name, ← IO.getEnv name)
  return Settings.ofEnvironment fun name => (values.lookup name).join

end QueryPlan.Command

open QueryPlan.Command in
def main (args : List String) : IO UInt32 := do
  run processSurroundings (← processSettings) args
