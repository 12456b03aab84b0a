/-
What a request was doing when it failed: the resource, the activity, the object and a hint, each
present or not, and their text.
-/
namespace RowMapper

structure ErrorContext where
  /-- Where the failing element was declared, usually a mapping file. -/
  resource : Option String := none
  /-- What was going on, such as `applying a result map`. -/
  activity : Option String := none
  /-- The statement or result map involved. -/
  objectId : Option String := none
  /-- A hint, such as the mapping to check. -/
  moreInfo : Option String := none
  deriving DecidableEq, Repr

namespace ErrorContext

def isEmpty (c : ErrorContext) : Bool :=
  c.resource.isNone && c.activity.isNone && c.objectId.isNone && c.moreInfo.isNone

def reset (_ : ErrorContext) : ErrorContext := {}

/-- The sentences of the parts that are present, in order. -/
def sentences (c : ErrorContext) : List String :=
  (c.resource.map (fun s => s!"the error occurred in {s}.")).toList ++
    (c.activity.map (fun s => s!"the error occurred while {s}.")).toList ++
    (c.objectId.map (fun s => s!"check the {s}.")).toList ++
    c.moreInfo.toList

def text (c : ErrorContext) : String := String.intercalate " " c.sentences

end ErrorContext

end RowMapper
