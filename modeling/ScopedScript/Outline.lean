/-!
# Outlines of nested data

Data laid out over lines: each part of a group begins a line of its own and stands four blanks
further in than the group. A group without parts stays on its line.
-/

namespace ScopedScript

/-- Nested data to be laid out over lines. -/
inductive Outline where
  | word (text : String)
  | labelled (label : String) (content : Outline)
  | group (opening : String) (parts : List Outline) (closing : String)

namespace Outline

/-- Named parts under a name. -/
def record (name : String) (fields : List Outline) : Outline :=
  group (name ++ " \x7b") fields "\x7d"

/-- Parts under a name. -/
def variant (name : String) (parts : List Outline) : Outline :=
  group (name ++ "(") parts ")"

/-- Any number of parts. -/
def list (parts : List Outline) : Outline :=
  group "[" parts "]"

/-- Two parts. -/
def pair (first second : Outline) : Outline :=
  group "(" [first, second] ")"

/-- A part that can be missing. -/
def optional : Option Outline → Outline
  | none => word "None"
  | some content => variant "Some" [content]

/-- How far a part stands further in than its group. -/
def indentation : Nat := 4

/-- The blanks at the start of a line. -/
def margin (width : Nat) : String := String.ofList (List.replicate width ' ')

mutual

/-- The layout of data that stands `width` blanks in. -/
def textAt (width : Nat) : Outline → String
  | word text => text
  | labelled label content => label ++ ": " ++ textAt width content
  | group opening [] closing => opening ++ closing
  | group opening (part :: rest) closing =>
    opening ++ "\n" ++ partsAt (width + indentation) (part :: rest) ++ margin width ++ closing

/-- The layout of the parts of a group, each closed by a comma. -/
def partsAt (width : Nat) : List Outline → String
  | [] => ""
  | part :: rest => margin width ++ textAt width part ++ ",\n" ++ partsAt width rest

end

/-- The layout of data that stands at the left edge. -/
def text (outline : Outline) : String := outline.textAt 0

end Outline

end ScopedScript
