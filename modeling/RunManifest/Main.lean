import RunManifest.Command.Program

/-!
The program: it reads the arguments, the variables and the manifest, and prints what
`RunManifest.Command` makes of them.
-/

set_option autoImplicit false

open RunManifest
open RunManifest.Command

namespace RunManifest.Session

def reasonOf : IO.Error → String
  | .noFileOrDirectory _ _ _ => "No such file or directory (os error 2)"
  | .permissionDenied _ _ _ => "Permission denied (os error 13)"
  | .inappropriateType _ _ _ => "Is a directory (os error 21)"
  | error => toString error

/-- The text of a manifest, or the reason why it could not be read. -/
def readSource (source : Source) : IO (Except String String) := do
  try
    match source with
    | .standardInput => return .ok (← (← IO.getStdin).readToEnd)
    | .file path => return .ok (← IO.FS.readFile path)
  catch error => return .error (reasonOf error)

def freshIdentifier : IO String := do
  let bytes ← IO.getRandomBytes 16
  return Identifier.ofBits (bytes.toList.foldl (fun bits byte => bits * 256 + byte.toNat) 0)

def failureText : List String → String
  | [] => "Error\n"
  | [message] => "Error: " ++ message ++ "\n"
  | message :: causes =>
      "Error: " ++ message ++ "\n\nCaused by:\n"
        ++ String.join (causes.map fun cause => "    " ++ cause ++ "\n")

def showsEmphasis : IO Bool := do
  if (← IO.getEnv "NO_COLOR").isSome then return false
  match ← IO.getEnv "CLICOLOR_FORCE" with
  | some value => return value != "0"
  | none => (← IO.getStdout).isTty

end RunManifest.Session

open RunManifest.Session in
def main (arguments : List String) : IO UInt32 := do
  let surroundings : Surroundings :=
    { output := ← IO.getEnv "TEKRUN_OUTPUT"
      serviceAccount := ← IO.getEnv "TEKRUN_SERVICE_ACCOUNT" }
  match Invocation.read surroundings arguments with
  | .error stop =>
      match stop.remark? with
      | none =>
          IO.print helpText
          return 0
      | some remark =>
          IO.eprint remark
          return 2
  | .ok invocation =>
      let text ← readSource invocation.source
      let outcome := invocation.run (← showsEmphasis) (← freshIdentifier) text
      for entry in Log.shown (threshold (← IO.getEnv "RUST_LOG")) outcome.entries do
        IO.eprintln (entry.level.word ++ " " ++ entry.source.path ++ ": " ++ entry.printed)
      match outcome.result with
      | .ok printed =>
          IO.print printed
          return 0
      | .error messages =>
          IO.eprint (failureText messages)
          return 1
