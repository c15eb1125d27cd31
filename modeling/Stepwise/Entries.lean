/-!
# Entries in insertion order

A mapping is kept as a list of entries. Writing under a key that is present replaces
the value where it stands, with the key first written; a new key goes to the end.
Keys are told apart by `==`, which need not be equality, so that keys of different
kinds may count as one.
-/

namespace Stepwise.Entries

variable {κ α : Type} [BEq κ]

/-- The value under a key. -/
def get? (key : κ) : List (κ × α) → Option α
  | [] => none
  | (present, value) :: rest => if present == key then some value else get? key rest

/-- Whether a key is present. -/
def has (key : κ) (entries : List (κ × α)) : Bool := (get? key entries).isSome

/-- Write a value under a key. -/
def insert (key : κ) (value : α) : List (κ × α) → List (κ × α)
  | [] => [(key, value)]
  | (present, old) :: rest =>
    if present == key then (present, value) :: rest else (present, old) :: insert key value rest

/-- Write entries one after the other. -/
def merge (entries : List (κ × α)) (writes : List (κ × α)) : List (κ × α) :=
  writes.foldl (fun written entry => insert entry.1 entry.2 written) entries

/-- The entries that a list of writes leaves. -/
def ofWrites (writes : List (κ × α)) : List (κ × α) := merge [] writes

/-- Remove a key, if it is present. -/
def erase (key : κ) : List (κ × α) → List (κ × α)
  | [] => []
  | (present, value) :: rest => if present == key then rest else (present, value) :: erase key rest

/-- The keys, in order. -/
def keys (entries : List (κ × α)) : List κ := entries.map Prod.fst

omit [BEq κ] in
@[simp] theorem keys_nil : keys ([] : List (κ × α)) = [] := rfl

omit [BEq κ] in
@[simp] theorem keys_cons (entry : κ × α) (rest : List (κ × α)) :
    keys (entry :: rest) = entry.1 :: keys rest := rfl

@[simp] theorem get?_nil (key : κ) : get? key ([] : List (κ × α)) = none := rfl

end Stepwise.Entries
