import Stepwise.Channels
import Stepwise.Held
import Stepwise.Record

/-!
# Reading channels again

Collecting a record from channels puts the mappings that the channels hold into the
sections, and below some of them other fields may be assigned. So whoever collects the
record from the same channels after that finds these mappings changed.

A channel takes the mapping of a declared field with its entries as they are, and the
mappings inside of it are still those of the record that was spread. Collecting may
therefore change that record as well. Neither happens where no field's name contains the
separator.
-/

namespace Stepwise

namespace Store

mutual

/-- Hold a value together with its leaves. A leaf that is a mapping is held once more,
    with the same entries. `whole` tells which mappings stay whole. -/
def holdLeaves (whole : List String → Bool) (path : List String) (store : Store) :
    Value → Item × List (List String × Item) × Store
  | .mapping entries =>
    if entries.isEmpty || whole path then
      let (items, filled) := store.holdEntries entries
      (.held filled.length, [(path, .held (filled.length + 1))], filled ++ [items, items])
    else
      let (items, leaves, filled) := holdLeavesOfEntries whole path store entries
      (.held filled.length, leaves, filled ++ [items])
  | value => (.plain value, [(path, .plain value)], store)

/-- Hold entries together with their leaves, in their order. -/
def holdLeavesOfEntries (whole : List String → Bool) (path : List String) (store : Store) :
    List (Key × Value) → List (Key × Item) × List (List String × Item) × Store
  | [] => ([], [], store)
  | (key, value) :: rest =>
    let (item, leaves, filled) := holdLeaves whole (path ++ [key.plain]) store value
    let (items, others, full) := holdLeavesOfEntries whole path filled rest
    ((key, item) :: items, leaves ++ others, full)

end

/-- Hold a section together with the entries that it contributes to the flat record. -/
def holdSection (separator : Separator) (whole : List String) (side : Section) (store : Store) :
    Value → Item × List (String × Item) × Store
  | .mapping entries =>
    let staysWhole := fun path => whole.contains (Flat.key separator side path)
    let (items, leaves, filled) := holdLeavesOfEntries staysWhole [] store entries
    (.held filled.length, leaves.map fun leaf => (Flat.key separator side leaf.1, leaf.2),
      filled ++ [items])
  | value => (.plain value, [], store)

end Store

namespace Channels

/-- What there is under the keys of all channels. -/
def heldIn (channels : Channels) (flat : Flat) : Flat :=
  Entries.ofWrites <| channels.keys.filterMap fun key =>
    (Entries.get? key flat).map fun value => (key, value)

/-- The record that the channels hold after it was collected from them several times. -/
def decodeAfter (channels : Channels) (times : Nat) (flat : Flat) : Attempt Flat.Nested :=
  let (items, store) := Store.holdFlat [] (channels.heldIn flat)
  let fields := channels.declaredIn items
  let before := Store.nestTimes channels.separator fields times store
  let after := before.nest channels.separator fields
  channels.collect (after.nested before.length) fun side =>
    ((Entries.get? (channels.overflowKey side) items).map after.value).getD .null

/-- Whether a channel has the very leaf of a section. A list channel has what its first
    update made of it, and an overflow channel a copy. -/
def keepsLeaf (channels : Channels) (key : String) : Bool :=
  !channels.isSequence key && Section.all.all fun side => channels.overflowKey side != key

/-- What is left of sections after the record was collected several times from the
    channels that they were spread over and that hold `flat` since. -/
def sectionsAfter (channels : Channels) (times : Nat) (flat : Flat) (sections : Sections) :
    Sections :=
  let (input, inputLeaves, first) :=
    Store.holdSection channels.separator channels.fieldKeys .input [] sections.input
  let (output, outputLeaves, second) :=
    Store.holdSection channels.separator channels.fieldKeys .output first sections.output
  let leaves := Entries.ofWrites (inputLeaves ++ outputLeaves)
  let (items, store) := second.holdFlat (channels.heldIn flat)
  let held := items.map fun entry =>
    (entry.1, if channels.keepsLeaf entry.1 then (Entries.get? entry.1 leaves).getD entry.2
      else entry.2)
  let after := Store.nestTimes channels.separator (channels.declaredIn held) times store
  ⟨after.value input, after.value output⟩

end Channels
end Stepwise
