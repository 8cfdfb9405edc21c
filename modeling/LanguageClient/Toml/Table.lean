import LanguageClient.Json.Value
/-!
Building tables. A table comes about by a header of its own, because a longer header goes through
it, or because a dotted key does; how it came about decides what may still be added to it.
-/
namespace LanguageClient.Toml
open Json

inductive Origin where
  | header
  | implied
  | dotted
  deriving DecidableEq, Repr

/-- A finished value, a table that is being built, or a list of tables, the last of which is. -/
inductive Node where
  | value (v : Value)
  | table (origin : Origin) (entries : List (String × Node))
  | tables (elements : List (List (String × Node)))

abbrev Entries := List (String × Node)

namespace Entries

def find? (es : Entries) (key : String) : Option Node := List.lookup key es

def put (key : String) (n : Node) : Entries → Entries
  | [] => [(key, n)]
  | e :: es => if e.1 = key then (key, n) :: es else e :: put key n es

/-- Adds a value under a dotted key: the tables on the way are made by dotted keys, except that
the way may start in tables that no header has defined. -/
def insert : List String → String → Value → Entries → Option Entries
  | [], key, v, es => if (es.find? key).isSome then none else some (es.put key (.value v))
  | k :: ks, key, v, es =>
    match es.find? k with
    | none => (insert ks key v []).map fun sub => es.put k (.table .dotted sub)
    | some (.table .dotted sub) => (insert ks key v sub).map fun sub => es.put k (.table .dotted sub)
    | some (.table .implied sub) =>
      if ks.isEmpty then none
      else (insert ks key v sub).map fun sub => es.put k (.table .implied sub)
    | some (.tables elements) =>
      match ks, elements.getLast? with
      | _ :: _, some last =>
        (insert ks key v last).map fun last => es.put k (.tables (elements.dropLast ++ [last]))
      | _, _ => none
    | some (.table .header _) | some (.value _) => none

def insertAll (pairs : List (List String × String × Value)) (es : Entries) : Option Entries :=
  pairs.foldlM (fun es (p : List String × String × Value) => insert p.1 p.2.1 p.2.2 es) es

/-- Changes the table that the words of a header lead to; tables that are missing on the way are
implied, and of a list of tables the last one is meant. -/
def within (f : Entries → Option Entries) : List String → Entries → Option Entries
  | [], es => f es
  | k :: ks, es =>
    match es.find? k with
    | none => (within f ks []).map fun sub => es.put k (.table .implied sub)
    | some (.table origin sub) => (within f ks sub).map fun sub => es.put k (.table origin sub)
    | some (.tables elements) =>
      match elements.getLast? with
      | some last => (within f ks last).map fun last => es.put k (.tables (elements.dropLast ++ [last]))
      | none => none
    | some (.value _) => none

/-- Defines a table by its header; only a table that was implied may be there already. -/
def define (key : String) (pairs : List (List String × String × Value)) (es : Entries) :
    Option Entries :=
  match es.find? key with
  | none => (insertAll pairs []).map fun sub => es.put key (.table .header sub)
  | some (.table .implied sub) =>
    (insertAll pairs sub).map fun sub => es.put key (.table .header sub)
  | some _ => none

/-- Adds a table to a list of tables. -/
def append (key : String) (pairs : List (List String × String × Value)) (es : Entries) :
    Option Entries :=
  (insertAll pairs []).bind fun sub =>
  match es.find? key with
  | none => some (es.put key (.tables [sub]))
  | some (.tables elements) => some (es.put key (.tables (elements ++ [sub])))
  | some _ => none

end Entries

namespace Node

mutual
def toValue : Node → Value
  | .value v => v
  | .table _ es => .obj (entryFields es [])
  | .tables elements => .arr (elementValues elements)

def entryFields : List (String × Node) → Fields → Fields
  | [], acc => acc
  | (k, n) :: es, acc => entryFields es (Fields.insert k (toValue n) acc)

def elementValues : List (List (String × Node)) → List Value
  | [] => []
  | es :: rest => .obj (entryFields es []) :: elementValues rest
end

end Node

end LanguageClient.Toml
