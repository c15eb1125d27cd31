import Stepwise.Flat

/-!
# Held mappings

Nesting a flat record does not copy the mappings that its entries hold. They are put
into the sections themselves, and what is assigned below them is written into them. So
a mapping that is held under two keys changes under both, and a flat record that is
nested twice holds at the second time what the first left in it.

A store has every mapping that is reached through mappings under an address of its own.
Mappings inside of other values are never written into and stay where they are. As long
as every mapping is held once, nesting in a store is the same as `toNested`.
-/

namespace Stepwise

/-- What stands under a key of a held mapping: a value that is not written into, or the
    mapping at an address. -/
inductive Item where
  | plain (value : Value)
  | held (address : Nat)

/-- The held mappings, by their addresses. -/
abbrev Store : Type := List (List (Key × Item))

namespace Store

/-- The mapping at an address. -/
def mappingAt (store : Store) (address : Nat) : List (Key × Item) := store[address]?.getD []

mutual

/-- Hold a value: its mappings get the next addresses, inner ones first. -/
def hold (store : Store) : Value → Item × Store
  | .mapping entries =>
    let (items, filled) := holdEntries store entries
    (.held filled.length, filled ++ [items])
  | value => (.plain value, store)

/-- Hold the values of entries, in their order. -/
def holdEntries (store : Store) : List (Key × Value) → List (Key × Item) × Store
  | [] => ([], store)
  | (key, value) :: rest =>
    let (item, filled) := hold store value
    let (items, full) := holdEntries filled rest
    ((key, item) :: items, full)

end

/-- Hold the values of a flat record, in their order. -/
def holdFlat (store : Store) : Flat → List (String × Item) × Store
  | [] => ([], store)
  | (key, value) :: rest =>
    let (item, filled) := hold store value
    let (items, full) := holdFlat filled rest
    ((key, item) :: items, full)

/-- Write an item at a non-empty path of names below the mapping at an address. The
    mappings on the way are gone into where they are, and new ones are made where there
    are none. -/
def assign (item : Item) : List String → Nat → Store → Store
  | [], _, store => store
  | [last], address, store =>
    store.set address (Entries.insert (Key.text last) item (store.mappingAt address))
  | name :: rest, address, store =>
    match Entries.get? (Key.text name) (store.mappingAt address) with
    | some (.held below) => assign item rest below store
    | _ =>
      let made := store.set address
        (Entries.insert (Key.text name) (.held store.length) (store.mappingAt address)) ++ [[]]
      assign item rest store.length made

/-- The address of a section, the first section being at `start`. -/
def root (start : Nat) : Section → Nat
  | .input => start
  | .output => start + 1

/-- Assign one entry of a flat record. -/
def place (separator : Separator) (start : Nat) (store : Store) (entry : String × Item) : Store :=
  match Flat.place? separator entry.1 with
  | some (side, path) => assign entry.2 path (root start side) store
  | none => store

/-- Nest a flat record of held values into two new sections, which get the next
    addresses. -/
def nest (separator : Separator) (flat : List (String × Item)) (store : Store) : Store :=
  flat.foldl (place separator store.length) (store ++ [[], []])

/-- Nest the same flat record several times. -/
def nestTimes (separator : Separator) (flat : List (String × Item)) : Nat → Store → Store
  | 0, store => store
  | times + 1, store => nestTimes separator flat times (nest separator flat store)

/-- The value that an item is, with the mappings down to a depth. -/
def valueTo (store : Store) : Nat → Item → Value
  | _, .plain value => value
  | 0, .held _ => .mapping []
  | depth + 1, .held address =>
    .mapping ((store.mappingAt address).map fun entry => (entry.1, valueTo store depth entry.2))

/-- The value that an item is. No mapping lies deeper than there are mappings, unless it
    lies in itself. -/
def value (store : Store) (item : Item) : Value := valueTo store store.length item

/-- The entries of the mapping at an address, with their values. -/
def entries (store : Store) (address : Nat) : List (Key × Value) :=
  (store.mappingAt address).map fun entry => (entry.1, store.value entry.2)

/-- Both sections, with their values. -/
def nested (store : Store) (start : Nat) : Flat.Nested :=
  ⟨store.entries (root start .input), store.entries (root start .output)⟩

end Store
end Stepwise
