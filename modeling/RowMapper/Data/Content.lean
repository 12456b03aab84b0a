/-
The content of a value: the tree that it unfolds to through the references of a store. The text of
a value, equality of values and every dump are functions of this tree.

Two objects are equal when they are the same object or hold equal content; maps and sets are
compared without regard to order, and a NaN equals nothing. Comparing two objects locks the right one
until it is done, and waits for ever if it comes to a locked object on the way.
-/
import RowMapper.Data.Store

namespace RowMapper

inductive Content where
  | null
  | bool (b : Bool)
  | i32 (n : Int32)
  | i64 (n : Int64)
  | f64 (x : Number.Binary64)
  | string (s : String)
  | bytes (b : ByteArray)
  | timestamp (t : Calendar.Timestamp)
  | list (items : List Content)
  | set (items : List Content)
  | record (fields : List Content)
  | map (ref : ObjectRef) (entries : List (String × Content))
  | bean (ref : ObjectRef) (type : BeanType) (fields : List Content)
  | dom (ref : ObjectRef) (node : DomNode)
  | unloaded (ref : LazyRef)
  | loaded (ref : LazyRef) (value : Content)

/-! ## Unfolding -/

mutual

/-- The content of a value, given the content of what it refers to. -/
def Value.contentWith (object : ObjectRef → Content) (lazy : LazyRef → Content) : Value → Content
  | .null => .null
  | .bool b => .bool b
  | .i32 n => .i32 n
  | .i64 n => .i64 n
  | .f64 x => .f64 x
  | .string s => .string s
  | .bytes b => .bytes b
  | .timestamp t => .timestamp t
  | .list items => .list (Value.contentsWith object lazy items)
  | .set items => .set (Value.contentsWith object lazy items)
  | .record fields => .record (Value.contentsWith object lazy fields)
  | .object ref => object ref
  | .lazy ref => lazy ref

def Value.contentsWith (object : ObjectRef → Content) (lazy : LazyRef → Content) :
    List Value → List Content
  | [] => []
  | v :: vs => Value.contentWith object lazy v :: Value.contentsWith object lazy vs

end

namespace Store

/-- The content of an object, given the content of the values in it. -/
def objectContent (s : Store) (inner : Value → Content) (ref : ObjectRef) : Content :=
  match s.data ref with
  | .map entries => .map ref (entries.map fun entry => (entry.1, inner entry.2))
  | .bean type fields => .bean ref type (fields.map inner)
  | .dom node => .dom ref node

/-- The content of a lazy value, given the content of the value in it. -/
def lazyContent (s : Store) (inner : Value → Content) (ref : LazyRef) : Content :=
  match s.loaded? ref with
  | some value => .loaded ref (inner value)
  | none => .unloaded ref

/-- The references passed on the way to a value. -/
structure Trail where
  objects : List ObjectRef := []
  lazies : List LazyRef := []

/-- The content of a value as seen through at most `depth` references behind those of a trail. What
is on the trail is not seen a second time: an object reads as an empty map there, a lazy value as not
loaded. -/
def unfold (s : Store) : Nat → Trail → Value → Content
  | 0, _, v => v.contentWith (fun ref => .map ref []) .unloaded
  | depth + 1, trail, v =>
    v.contentWith
      (fun ref =>
        if trail.objects.contains ref then .map ref []
        else s.objectContent (s.unfold depth { trail with objects := ref :: trail.objects }) ref)
      (fun ref =>
        if trail.lazies.contains ref then .unloaded ref
        else s.lazyContent (s.unfold depth { trail with lazies := ref :: trail.lazies }) ref)

/-- The number of references that a path without repetition can have. -/
def depth (s : Store) : Nat := s.objects.size + s.lazies.size

/-- The content of a value. A value that does not contain itself is seen to the end. -/
def content (s : Store) (v : Value) : Content := s.unfold s.depth {} v

end Store

namespace Content

/-! ## Text -/

mutual

def text : Content → String
  | .null => "null"
  | .bool b => if b then "true" else "false"
  | .i32 n => toString n.toInt
  | .i64 n => toString n.toInt
  | .f64 x => x.text
  | .string s => s
  | .bytes b => Value.bytesText b
  | .timestamp t => t.text
  | .list items => "[" ++ String.intercalate ", " (texts items) ++ "]"
  | .set items => "[" ++ String.intercalate ", " (texts items) ++ "]"
  | .record fields => "[" ++ String.intercalate ", " (texts fields) ++ "]"
  | .map _ entries => "\x7b" ++ String.intercalate ", " (entryTexts entries) ++ "\x7d"
  | .bean _ type fields =>
    type.name ++ "\x7b" ++ String.intercalate ", " (fieldTexts type.properties fields) ++ "\x7d"
  | .dom _ node => node.xml
  | .unloaded _ => "<unloaded>"
  | .loaded _ value => text value

def texts : List Content → List String
  | [] => []
  | c :: cs => text c :: texts cs

def entryTexts : List (String × Content) → List String
  | [] => []
  | (key, c) :: rest => (key ++ "=" ++ text c) :: entryTexts rest

def fieldTexts : List (String × DataType) → List Content → List String
  | (property, _) :: properties, c :: cs =>
    (property ++ "=" ++ text c) :: fieldTexts properties cs
  | _, _ => []

end

/-! ## Equality -/

mutual

/-- Whether `a` equals `b`, or `b` equals `a` when `flipped`. A set equals another of its length
when each of its members is found there, which looks for an equal from the other side. -/
def agrees (flipped : Bool) : Content → Content → Bool
  | .null, .null => true
  | .bool x, .bool y => x == y
  | .i32 x, .i32 y => x == y
  | .i64 x, .i64 y => x == y
  | .f64 x, .f64 y => x.same y
  | .string x, .string y => x == y
  | .bytes x, .bytes y => x == y
  | .timestamp x, .timestamp y => x == y
  | .list xs, .list ys => allAgree flipped xs ys
  | .set xs, .set ys =>
    xs.length == ys.length &&
      (if flipped then ys.all fun y => anyAgrees y xs else allFound xs ys)
  | .record xs, .record ys => allAgree flipped xs ys
  | .map r xs, .map q ys => r == q || xs.length == ys.length && entriesAgree flipped xs ys
  | .bean r t xs, .bean q u ys => r == q || t == u && allAgree flipped xs ys
  | .dom r x, .dom q y => r == q || x == y
  | .unloaded r, .unloaded q => r == q
  | .loaded r x, .loaded q y => r == q || agrees flipped x y
  | _, _ => false
termination_by structural a _ => a

/-- Whether two lists agree item by item. -/
def allAgree (flipped : Bool) : List Content → List Content → Bool
  | [], [] => true
  | x :: xs, y :: ys => agrees flipped x y && allAgree flipped xs ys
  | _, _ => false
termination_by structural xs _ => xs

/-- Whether each of `xs` has an equal among `ys`. -/
def allFound : List Content → List Content → Bool
  | [], _ => true
  | x :: xs, ys => (ys.any fun y => agrees true x y) && allFound xs ys
termination_by structural xs _ => xs

/-- Whether one of `xs` equals `y`. -/
def anyAgrees (y : Content) : List Content → Bool
  | [] => false
  | x :: xs => agrees false x y || anyAgrees y xs
termination_by structural xs => xs

/-- Whether each entry of `xs` has an equal entry in `ys`. -/
def entriesAgree (flipped : Bool) : List (String × Content) → List (String × Content) → Bool
  | [], _ => true
  | (key, x) :: xs, ys =>
    (match Table.get? key ys with
      | some y => agrees flipped x y
      | none => false) && entriesAgree flipped xs ys
termination_by structural xs _ => xs

end

def same (a b : Content) : Bool := agrees false a b

/-! ## Comparing -/

/-- The object that a content shows, if it shows one. -/
def object? : Content → Option ObjectRef
  | .map r _ | .bean r _ _ | .dom r _ => some r
  | _ => none

/-- What comes of two objects that are compared before what they hold is: an object equals itself, and
one that is locked is waited for, so that there is no answer. -/
def meet (held : List ObjectRef) (a b : Content) : Option (Option Bool) :=
  match a.object?, b.object? with
  | some r, some q =>
    if r = q then some (some true)
    else if r ∈ held ∨ q ∈ held then some none
    else none
  | _, _ => none

/-- What is locked while what stands in the right side of a comparison is compared. -/
def lock (held : List ObjectRef) (right : Content) : List ObjectRef :=
  match right.object? with
  | some r => r :: held
  | none => held

mutual

/-- The answer of comparing `a` with `b`, or `b` with `a` when `flipped`, while objects are locked;
nothing if it waits for ever. -/
def compare? (held : List ObjectRef) (flipped : Bool) (a b : Content) : Option Bool :=
  match meet held a b with
  | some answer => answer
  | none =>
    let held := lock held (if flipped then a else b)
    match a, b with
    | .list xs, .list ys | .record xs, .record ys =>
      if xs.length = ys.length then compareAll? held flipped xs ys else some false
    | .set xs, .set ys =>
      if xs.length = ys.length then
        if flipped then ys.allM fun y => findOne? held y xs else findAll? held xs ys
      else some false
    | .map _ xs, .map _ ys =>
      if xs.length = ys.length then
        if flipped then ys.allM fun entry => compareUnder? held entry.1 entry.2 xs
        else compareEntries? held xs ys
      else some false
    | .bean _ t xs, .bean _ u ys =>
      if t == u && xs.length == ys.length then compareAll? held flipped xs ys else some false
    | .loaded r x, .loaded q y => if r = q then some true else compare? held flipped x y
    | a, b => some (agrees flipped a b)
termination_by structural a

/-- Compares two lists of one length item by item, up to the first that differ. -/
def compareAll? (held : List ObjectRef) (flipped : Bool) : List Content → List Content → Option Bool
  | x :: xs, y :: ys =>
    match compare? held flipped x y with
    | some true => compareAll? held flipped xs ys
    | answer => answer
  | _, _ => some true
termination_by structural xs _ => xs

/-- Looks for an equal of each of `xs` among `ys`, where members are on the left. -/
def findAll? (held : List ObjectRef) : List Content → List Content → Option Bool
  | [], _ => some true
  | x :: xs, ys =>
    match ys.anyM fun y => compare? held true x y with
    | some true => findAll? held xs ys
    | answer => answer
termination_by structural xs _ => xs

/-- Looks for an equal of `y` among `xs`, up to the first. -/
def findOne? (held : List ObjectRef) (y : Content) : List Content → Option Bool
  | [] => some false
  | x :: xs =>
    match compare? held false x y with
    | some false => findOne? held y xs
    | answer => answer
termination_by structural xs => xs

/-- Looks for each entry of `xs` in `ys`, up to the first that differs there. -/
def compareEntries? (held : List ObjectRef) :
    List (String × Content) → List (String × Content) → Option Bool
  | [], _ => some true
  | (key, x) :: xs, ys =>
    match Table.get? key ys with
    | none => some false
    | some y =>
      match compare? held false x y with
      | some true => compareEntries? held xs ys
      | answer => answer
termination_by structural xs _ => xs

/-- Looks for an entry `y` in `xs`. -/
def compareUnder? (held : List ObjectRef) (key : String) (y : Content) :
    List (String × Content) → Option Bool
  | [] => some false
  | (other, x) :: xs =>
    if other = key then compare? held true x y else compareUnder? held key y xs
termination_by structural xs => xs

end

end Content

namespace Store

/-- The text of a value. -/
def text (s : Store) (v : Value) : String := (s.content v).text

/-- Whether two values are equal. -/
def same (s : Store) (a b : Value) : Bool := (s.content a).same (s.content b)

/-- The answer of comparing two values while objects are locked; nothing if it waits for ever. -/
def compare? (s : Store) (held : List ObjectRef) (a b : Value) : Option Bool :=
  (s.content a).compare? held false (s.content b)

/-! ## Sets -/

/-- Whether an equal of `v` is among the members. -/
def isMember (s : Store) (members : List Value) (v : Value) : Bool :=
  members.any fun member => s.same member v

/-- The members with `v` added, unless an equal is there. -/
def addMember (s : Store) (members : List Value) (v : Value) : List Value :=
  if s.isMember members v then members else members ++ [v]

/-- The distinct values of a list, first occurrences in order. -/
def distinct (s : Store) (values : List Value) : List Value := values.foldl s.addMember []

/-- The answer of looking for an equal of `v` among the members, one after the other. -/
def find? (s : Store) (held : List ObjectRef) (members : List Value) (v : Value) : Option Bool :=
  members.anyM fun member => s.compare? held member v

/-- The members with `v` inserted, if looking for an equal comes to an end. -/
def insert? (s : Store) (held : List ObjectRef) (members : List Value) (v : Value) :
    Option (List Value) :=
  (s.find? held members v).map fun found => if found then members else members ++ [v]

/-- The members of a set that values are inserted into one by one, if that comes to an end. -/
def insertAll? (s : Store) (values : List Value) : Option (List Value) :=
  values.foldlM (s.insert? []) []

/-- A collection or record with one more element, if adding it comes to an end. -/
def push (s : Store) (collection item : Value) : Except Error Value :=
  match collection with
  | .list items => .ok (.list (items ++ [item]))
  | .set members => .ok (.set (s.addMember members item))
  | .record fields => .ok (.record (fields ++ [item]))
  | other => .error (.configuration (.notGrowable other.variant))

/-- The collection with one more element, or as it is with the error that adding it gives. -/
def grow (s : Store) (collection item : Value) : Value × Except Error Unit :=
  match s.push collection item with
  | .ok grown => (grown, .ok ())
  | .error e => (collection, .error e)

end Store

end RowMapper
