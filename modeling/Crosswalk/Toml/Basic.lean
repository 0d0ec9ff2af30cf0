/-!
# TOML documents

Values, and the tables that a document builds up line by line. A key may be given once. A table may
be begun by its header once, after longer headers have gone through it or before, and tables that
arise from dotted keys or are written inline cannot be begun again.
-/

namespace Crosswalk

inductive TableOrigin where
  /-- A longer header went through it. -/
  | passed
  | header
  | dotted
  | inline
  deriving DecidableEq, Repr, Inhabited

inductive Toml where
  | string (s : String)
  | integer (n : Int)
  | float
  | boolean (b : Bool)
  | dateTime
  | array (items : List Toml)
  | table (origin : TableOrigin) (entries : List (String × Toml))
  /-- A list of tables with one header; the last comes first. -/
  | tables (items : List (List (String × Toml)))
  deriving Repr, Inhabited

namespace Toml

abbrev Entries := List (String × Toml)

def put (key : String) (value : Toml) : Entries → Entries
  | [] => [(key, value)]
  | (k, v) :: rest => if k == key then (key, value) :: rest else (k, v) :: put key value rest

/-- Gives a value to a dotted key. Its steps may go through tables that no header has begun, but only
those that arose from dotted keys can be given further keys; `extensible` says whether this is so of the
table reached. -/
def assignIn? (value : Toml) : Bool → List String → Entries → Option Entries
  | _, [], _ => none
  | extensible, [key], entries =>
    if extensible && (entries.lookup key).isNone then some (put key value entries) else none
  | _, key :: keys, entries =>
    match entries.lookup key with
    | none =>
      (assignIn? value true keys []).map fun inner => put key (.table .dotted inner) entries
    | some (.table .dotted inner) =>
      (assignIn? value true keys inner).map fun inner => put key (.table .dotted inner) entries
    | some (.table .passed inner) =>
      (assignIn? value false keys inner).map fun inner => put key (.table .passed inner) entries
    | some (.tables (inner :: others)) =>
      (assignIn? value false keys inner).map fun inner => put key (.tables (inner :: others)) entries
    | some _ => none

def assign? (value : Toml) (keys : List String) (entries : Entries) : Option Entries :=
  assignIn? value true keys entries

def beginTable? : List String → Entries → Option Entries
  | [], _ => none
  | [key], entries =>
    match entries.lookup key with
    | none => some (put key (.table .header []) entries)
    | some (.table .passed inner) => some (put key (.table .header inner) entries)
    | some _ => none
  | key :: keys, entries =>
    match entries.lookup key with
    | none => (beginTable? keys []).map fun inner => put key (.table .passed inner) entries
    | some (.table .inline _) => none
    | some (.table origin inner) =>
      (beginTable? keys inner).map fun inner => put key (.table origin inner) entries
    | some (.tables (inner :: others)) =>
      (beginTable? keys inner).map fun inner => put key (.tables (inner :: others)) entries
    | some _ => none

def beginListed? : List String → Entries → Option Entries
  | [], _ => none
  | [key], entries =>
    match entries.lookup key with
    | none => some (put key (.tables [[]]) entries)
    | some (.tables items) => some (put key (.tables ([] :: items)) entries)
    | some _ => none
  | key :: keys, entries =>
    match entries.lookup key with
    | none => (beginListed? keys []).map fun inner => put key (.table .passed inner) entries
    | some (.table .inline _) => none
    | some (.table origin inner) =>
      (beginListed? keys inner).map fun inner => put key (.table origin inner) entries
    | some (.tables (inner :: others)) =>
      (beginListed? keys inner).map fun inner => put key (.tables (inner :: others)) entries
    | some _ => none

def assignUnder? (value : Toml) (keys : List String) : List String → Entries → Option Entries
  | [], entries => assign? value keys entries
  | step :: path, entries =>
    match entries.lookup step with
    | some (.table origin inner) =>
      (assignUnder? value keys path inner).map fun inner => put step (.table origin inner) entries
    | some (.tables (inner :: others)) =>
      (assignUnder? value keys path inner).map fun inner =>
        put step (.tables (inner :: others)) entries
    | _ => none

end Toml

end Crosswalk
