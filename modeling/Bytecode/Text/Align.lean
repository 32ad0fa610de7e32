/-!
# Columns of a fixed width

## Main definitions

* `Text.alignRight`, `Text.alignLeft`: a text with spaces before or after it, up to a width
-/

namespace Bytecode.Text

/-- A text with spaces before it, so that it has at least `width` characters. -/
def alignRight (width : Nat) (text : String) : String :=
  String.ofList (List.replicate (width - text.length) ' ') ++ text

/-- A text with spaces after it, so that it has at least `width` characters. -/
def alignLeft (width : Nat) (text : String) : String :=
  text ++ String.ofList (List.replicate (width - text.length) ' ')

end Bytecode.Text
