import RunManifest.Manifest
import RunManifest.Text.Space

/-!
Contract: what holds for a whole call of the program.

Owns:
- `Config`, the form in which manifests are printed and the service account for prepared runs that
  do not name one;
- `Config.validate`, which refuses an account without any visible character.
-/

set_option autoImplicit false

namespace RunManifest.Command

/-- What holds for a whole call. -/
structure Config where
  output : Manifest.Form
  serviceAccount : Option String
deriving DecidableEq, Repr

namespace Config

/-- Why a configuration is refused. -/
inductive Refusal where
  | emptyAccount
deriving DecidableEq, Repr

def Refusal.message : Refusal → String
  | .emptyAccount => "service_account cannot be empty"

def validate (config : Config) : Except Refusal Unit :=
  if config.serviceAccount.any Text.isBlank then .error .emptyAccount else .ok ()

end Config

end RunManifest.Command
