/-!
# Laying out text

Small pieces of wording that several diagnostics and listings share.
-/

namespace FrontEnd.Text

/-- A text between single quotes. -/
def quoted (s : String) : String :=
  "'" ++ s ++ "'"

/-- A text filled up with blanks on the right to a least number of characters. -/
def padded (width : Nat) (s : String) : String :=
  s ++ String.ofList (List.replicate (width - s.length) ' ')

end FrontEnd.Text
