/-!
# Descriptions of values

A value is described on one line by its kind and its fields. Secrets are described by a fixed text
in their place.
-/

namespace Keyring.Text

/-- What stands for a secret. -/
def redacted : String := "\"[REDACTED]\""

/-- A kind and its named fields. -/
def describe (kind : String) (fields : List (String × String)) : String :=
  kind ++ " \x7b " ++
    ", ".intercalate (fields.map fun (name, value) => name ++ ": " ++ value) ++ " \x7d"

/-- A kind around a single value. -/
def describeWrapped (kind value : String) : String :=
  kind ++ "(" ++ value ++ ")"

/-- Numbered values. -/
def describeNumbered (entries : List (Nat × String)) : String :=
  "\x7b" ++ ", ".intercalate (entries.map fun (n, value) => toString n ++ ": " ++ value) ++ "\x7d"

end Keyring.Text
