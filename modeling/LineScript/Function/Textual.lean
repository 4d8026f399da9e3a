import LineScript.Function.Conversion

/-!
# Functions on texts, input and output
-/

namespace LineScript.Func

/-- The number of characters of a text; a byte that belongs to none counts as one. -/
def length (v : Value) : Except Failure Value :=
  if v.tag = .text then .ok (.ofInt (Int64.ofNat (Glyph.decode v.text).length))
  else .error (.unsuitable (bytes "len") v.tag)

/-- The mark that stands for an argument in a template. -/
def placeholder : Bytes := bytes "%s"

/-- A template with its first placeholders replaced by the arguments, in order; what has been put in
is not looked at again. -/
def fill (template : Bytes) : List Bytes → Bytes
  | [] => template
  | arg :: args =>
    match Bytes.cut? placeholder template with
    | none => template
    | some (before, after) => before ++ arg ++ fill after args

/-- `format(template, arguments...)`. -/
def format : Func
  | [] => Action.fail .noTemplate
  | template :: args =>
    if template.tag = .text then pure (.ofText (fill template.text (args.map Value.display)))
    else Action.fail (.templateType template.tag)

/-- `input()` and `input(prompt)`: the next line of input, after writing the prompt. -/
def input : Func
  | [] => do return .ofText (← Action.readLine (bytes "input"))
  | [prompt] => do
    Action.write (bytes "input prompt") prompt.display
    return .ofText (← Action.readLine (bytes "input"))
  | args => Action.fail (.promptCount args.length)

/-- `print(arguments...)`: writes the display texts separated by spaces and ends the line; the result
is the number of bytes written. -/
def print : Func := fun args => do
  let text := List.intercalate (bytes " ") (args.map Value.display) ++ bytes "\n"
  Action.write (bytes "print") text
  return .ofInt (Int64.ofNat text.length)

end LineScript.Func
