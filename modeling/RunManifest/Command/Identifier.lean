import RunManifest.Text.Digits

/-!
Contract: identifiers for runs that are not given one.

Owns `Identifier.ofBits`, the text of a random universally unique identifier: 32 hexadecimal digits
in groups of 8, 4, 4, 4 and 12, where the first digit of the third group gives the version 4 and the
first of the fourth the variant.
-/

set_option autoImplicit false

namespace RunManifest.Command.Identifier

/-- The hexadecimal digits of a number, filled up with zeros on the left. -/
def digits (width n : Nat) : List Char :=
  List.replicate (width - (Text.hexadecimal n).length) '0' ++ Text.hexadecimal n

/-- The identifier made of 128 random bits, of which six are replaced. -/
def ofBits (bits : Nat) : String :=
  let group := fun (shift width : Nat) => bits / Nat.pow 2 shift % Nat.pow 2 width
  String.ofList
    (digits 8 (group 96 32) ++ '-' :: digits 4 (group 80 16)
      ++ '-' :: digits 4 (0x4000 + group 64 12) ++ '-' :: digits 4 (0x8000 + group 48 14)
      ++ '-' :: digits 12 (group 0 48))

end RunManifest.Command.Identifier
