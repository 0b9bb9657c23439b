import GraphLowering.Code.Tree
import GraphLowering.Literal
import GraphLowering.Text.Substitute

/-!
# Defaults — lines

The lines that give a live object its values, as data: each says which place it changes and which
value or object it uses, next to how these are written.
-/

namespace GraphLowering.Defaults

/-- A step from a place to a part of it. -/
inductive PathStep
  | member (field : FieldId) (name : String)
  | element (index : Nat)
  deriving DecidableEq, Repr, Inhabited

namespace PathStep

/-- The text of a step; a member behind another step takes a dot. -/
def text (isFirst : Bool) : PathStep → String
  | member _ name => if isFirst then name else "." ++ name
  | element index => "[" ++ toString index ++ "]"

end PathStep

/-- The object that a root stands for. -/
inductive Holder
  /-- The object that values are emitted for. -/
  | given (object : ObjectId)
  /-- An object that was created on the way. -/
  | created (object : ObjectId)
  deriving DecidableEq, Repr, Inhabited

/-- A part of an object: what stands before the first member, and the steps from there. -/
structure Place where
  /-- The object that the root stands for, if it is one. -/
  holder : Option Holder
  root : String
  steps : List PathStep := []
  deriving DecidableEq, Repr, Inhabited

namespace Place

def member (p : Place) (field : FieldId) (name : String) : Place :=
  { p with steps := p.steps ++ [.member field name] }

def element (p : Place) (index : Nat) : Place := { p with steps := p.steps ++ [.element index] }

/-- The texts of steps in a row. -/
def stepsText : List PathStep → String
  | [] => ""
  | s :: rest => s.text true ++ String.join (rest.map (·.text false))

def text (p : Place) : String := p.root ++ stepsText p.steps

end Place

/-- What a line stores, and how it is written. -/
inductive Source
  /-- A literal of a value. -/
  | literal (type : ValueType) (value : Value) (text : String)
  /-- An object at hand. -/
  | object (id : ObjectId) (text : String)
  /-- The default of a struct, whose members are stored afterwards. -/
  | structDefault (type : ValueType) (text : String)
  deriving Repr, Inhabited

namespace Source

def text : Source → String
  | literal _ _ text => text
  | object _ text => text
  | structDefault _ text => text

end Source

/-- The creation of an object. -/
structure Creation where
  object : ObjectId
  /-- The object whose values the new one starts with. -/
  archetype : Option ObjectId
  localName : String
  /-- The class as it is spelled. -/
  cls : String
  /-- The expression of the owner. -/
  outer : String
  name : String
  deriving DecidableEq, Repr, Inhabited

namespace Creation

/-- The line that creates an object; an owner `this` takes a default sub-object. -/
def text (c : Creation) : String :=
  let quoted := "TEXT(" ++ Text.quote c.name ++ "));"
  if c.outer = "this" then
    "auto " ++ c.localName ++ " = CreateDefaultSubobject<" ++ c.cls ++ ">(" ++ quoted
  else
    "auto " ++ c.localName ++ " = NewObject<" ++ c.cls ++ ">(" ++ c.outer ++ ", " ++ quoted

end Creation

/-- A line that gives objects their values. -/
inductive Line
  | assign (place : Place) (source : Source)
  /-- Empty an array. -/
  | clear (place : Place)
  | reserve (place : Place) (count : Nat)
  /-- Append to an array. -/
  | append (place : Place) (source : Source)
  | create (creation : Creation)
  /-- Run the statement that registers a new object. -/
  | register (object : ObjectId) (localName afterCreate : String)
  deriving Repr, Inhabited

namespace Line

def text : Line → String
  | assign place source => place.text ++ " = " ++ source.text ++ ";"
  | clear place => place.text ++ ".Empty();"
  | reserve place count => place.text ++ ".Reserve(" ++ toString count ++ ");"
  | append place source => place.text ++ ".Add(" ++ source.text ++ ");"
  | create creation => creation.text
  | register _ localName afterCreate =>
    Text.substitute "\x7blocal\x7d" localName afterCreate

def code (l : Line) : Code := .line l.text

end Line
end GraphLowering.Defaults
