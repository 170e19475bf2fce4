import Mathlib.Data.List.Nodup

/-!
# Values as JSON, and how they are read back

A value as it is stored (`Value`), and a type's way to and from it (`Codec`), which carries what makes it one: a
value written is read back as it was, whatever the variable held before.

Reading is into a variable: `null` leaves a word or a record as it is and empties a list; a record's members are
taken one after another, each by the field whose name is the member's but for case, and one that no field names
is passed over; a value of another kind is an error.
-/

set_option autoImplicit false

namespace Stoop.Lib.Json

/-- A value. A number is whole, or is written with a point. -/
inductive Value
  | null
  | bool (b : Bool)
  | int (n : Int)
  | point (text : List Char)
  | str (s : List Char)
  | arr (items : List Value)
  | obj (members : List (String × Value))
  deriving Repr

/-- A type's values written, and read into a variable: nothing where the value is of another kind. -/
structure Codec (α : Type) where
  encode : α → Value
  into : α → Value → Option α
  into_encode : ∀ old a, into old (encode a) = some a

attribute [simp] Codec.into_encode

variable {α σ : Type}

/-! ## Words, switches and numbers -/

def Codec.string : Codec (List Char) where
  encode := .str
  into old
    | .null => some old
    | .str s => some s
    | _ => none
  into_encode _ _ := rfl

def Codec.bool : Codec Bool where
  encode := .bool
  into old
    | .null => some old
    | .bool b => some b
    | _ => none
  into_encode _ _ := rfl

/-- A number is read if it is whole and fits. -/
def Codec.int64 : Codec Int64 where
  encode n := .int n.toInt
  into old
    | .null => some old
    | .int n => if (Int64.ofInt n).toInt = n then some (.ofInt n) else none
    | _ => none
  into_encode _ n := by simp only [Int64.ofInt_toInt, if_true]

/-! ## Lists -/

theorem mapM_encode (c : Codec α) (zero : α) (xs : List α) :
    (xs.map c.encode).mapM (c.into zero) = some xs := by
  induction xs with
  | nil => rfl
  | cons x xs ih =>
    rw [List.map_cons, List.mapM_cons, c.into_encode, Option.bind_eq_bind, Option.bind_some, ih]
    rfl

/-- A list, each of its items read into a new one. -/
def Codec.list (zero : α) (c : Codec α) : Codec (List α) where
  encode xs := .arr (xs.map c.encode)
  into _
    | .null => some []
    | .arr items => items.mapM (c.into zero)
    | _ => none
  into_encode _ xs := mapM_encode c zero xs

/-- A list that is written as `null` while it is empty. -/
def Codec.nilList (zero : α) (c : Codec α) : Codec (List α) where
  encode
    | [] => .null
    | x :: xs => (list zero c).encode (x :: xs)
  into := (list zero c).into
  into_encode old
    | [] => rfl
    | x :: xs => (list zero c).into_encode old (x :: xs)

/-! ## Records -/

/-- A name's letter, but for case: two letters beside the small ones fold to one of them. -/
def foldRune (c : Char) : Char := if c = '\u212A' then 'k' else if c = '\u017F' then 's' else c.toLower

def foldName (name : String) : List Char := name.toList.map foldRune

/-- One field of a record: its name, its value written, and a value read into it. -/
structure Field (σ : Type) where
  name : String
  get : σ → Value
  put : σ → Value → Option σ

def Field.of (name : String) (c : Codec α) (get : σ → α) (set : σ → α → σ) : Field σ where
  name := name
  get s := c.encode (get s)
  put s value := (c.into (get s) value).map (set s)

/-- A member of a record's value read, by the field it names if there is one. -/
def member (fields : List (Field σ)) (s : σ) (m : String × Value) : Option σ :=
  match fields.find? fun field => foldName field.name == foldName m.1 with
  | none => some s
  | some field => field.put s m.2

/-- A record read: its members in turn. -/
def recordInto (fields : List (Field σ)) (s : σ) : Value → Option σ
  | .null => some s
  | .obj members => members.foldlM (member fields) s
  | _ => none

def recordValue (fields : List (Field σ)) (s : σ) : Value :=
  .obj (fields.map fun field => (field.name, field.get s))

/-- What a record's own value is read as: each field put in turn. -/
theorem recordInto_value {fields : List (Field σ)} (hnames : (fields.map fun field => foldName field.name).Nodup)
    (old s : σ) : recordInto fields old (recordValue fields s) =
      fields.foldlM (fun old field => field.put old (field.get s)) old := by
  have hmember : ∀ field ∈ fields, ∀ old,
      member fields old (field.name, field.get s) = field.put old (field.get s) := by
    intro field hfield old
    have hfind : (fields.find? fun f => foldName f.name == foldName field.name) = some field := by
      cases hfound : fields.find? fun f => foldName f.name == foldName field.name with
      | none => exact absurd (beq_self_eq_true _) (List.find?_eq_none.mp hfound field hfield)
      | some f =>
        have hname := List.find?_some hfound
        exact congrArg some (List.inj_on_of_nodup_map hnames (List.mem_of_find?_eq_some hfound) hfield
          (eq_of_beq hname))
    rw [member, hfind]
  have hall : ∀ part : List (Field σ), (∀ field ∈ part, field ∈ fields) → ∀ old,
      (part.map fun field => (field.name, field.get s)).foldlM (member fields) old =
        part.foldlM (fun old field => field.put old (field.get s)) old := by
    intro part hsub
    induction part with
    | nil => exact fun _ => rfl
    | cons field rest ih =>
      intro old
      rw [List.map_cons, List.foldlM_cons, List.foldlM_cons, hmember field (hsub field List.mem_cons_self)]
      exact bind_congr fun old => ih (fun f hf => hsub f (List.mem_cons_of_mem field hf)) old
  exact hall fields (fun _ h => h) old

/-- A record, by its fields: each name once but for case, and together they say all there is. -/
def Codec.record (fields : List (Field σ)) (hnames : (fields.map fun field => foldName field.name).Nodup)
    (hwhole : ∀ old s, fields.foldlM (fun old field => field.put old (field.get s)) old = some s) : Codec σ where
  encode := recordValue fields
  into := recordInto fields
  into_encode old s := (recordInto_value hnames old s).trans (hwhole old s)

end Stoop.Lib.Json
