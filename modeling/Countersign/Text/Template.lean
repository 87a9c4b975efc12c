/-
# Message templates

A template is a text with holes. A hole is a key in braces; filling it puts a value in its place.
The keys are filled one after the other, so what an earlier value brought in can be filled by a
later key.

Key definitions: `Template.hole`, `Template.replaceAll`, `Template.fill`.
-/

namespace Countersign
namespace Template

/-- The text of the hole for `key`. -/
def hole (key : String) : String := "\x7b" ++ key ++ "\x7d"

/-- Replaces `pattern` in a text from left to right, after passing over `skip` characters that a
replacement already stands for. -/
def replaceFrom (pattern replacement : List Char) : Nat → List Char → List Char
  | _, [] => []
  | skip + 1, _ :: cs => replaceFrom pattern replacement skip cs
  | 0, c :: cs =>
    if pattern.isPrefixOf (c :: cs) then
      replacement ++ replaceFrom pattern replacement (pattern.length - 1) cs
    else c :: replaceFrom pattern replacement 0 cs

/-- The text with every occurrence of `pattern` replaced. -/
def replaceAll (text pattern replacement : String) : String :=
  String.ofList (replaceFrom pattern.toList replacement.toList 0 text.toList)

/-- The template with the holes of every key filled in turn; a key without a value gives a
question mark. -/
def fill (template : String) (values : List (String × Option String)) : String :=
  values.foldl (fun text v => replaceAll text (hole v.1) (v.2.getD "?")) template

end Template
end Countersign
