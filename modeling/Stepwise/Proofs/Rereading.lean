import Stepwise.Rereading
import Stepwise.Proofs.FieldOrder
import Stepwise.Proofs.LeftBehind

/-!
# Collecting a record from held channels

Channels hold each of their mappings once. So the record is first collected as `decode`
has it, which never looks at a store; and so it is collected every further time, as long
as the store still has the mappings of the channels as they were.

Where no field's name contains the separator, nesting writes into the new sections only
and leaves the rest of the store alone. Then collecting changes nothing that anybody
holds: neither the channels nor the record that was spread over them.
-/

namespace Stepwise

open Located (nodesOf items)

/-! ## What is held under the channels' keys -/

namespace Channels

open Entries (isExact_of_lawful)

variable (channels : Channels)

/-- What there is under the keys of the declared fields, with every value changed by a rule. -/
theorem declaredIn_mapValues {α β : Type} (rule : α → β) (flat : List (String × α)) :
    channels.declaredIn (Entries.mapValues rule flat) =
      Entries.mapValues rule (channels.declaredIn flat) := by
  rw [declaredIn, declaredIn, Entries.ofWrites_mapValues]
  congr 1
  refine (List.filterMap_congr fun key _ => ?_).trans List.map_filterMap.symm
  rw [Entries.get?_mapValues]
  cases Entries.get? key flat <;> rfl

/-- The keys of what is held are pairwise distinct. -/
theorem nodup_keys_heldIn (flat : Flat) : (Entries.keys (channels.heldIn flat)).Nodup :=
  Entries.nodup_keys_merge [] _ (fun key _ => isExact_of_lawful key) (by simp)

/-- Under the key of a channel the same is held as there was. -/
theorem get?_heldIn (flat : Flat) (key : String) (isKey : key ∈ channels.keys) :
    Entries.get? key (channels.heldIn flat) = Entries.get? key flat := by
  have exact := isExact_of_lawful (κ := String)
  cases found : Entries.get? key flat with
  | none =>
    rw [Entries.get?_eq_none_exact key (exact key)]
    intro present
    obtain ⟨entry, member, rfl⟩ := List.mem_map.mp present
    have read := (Entries.mem_ofWrites_filterMap _ _ entry).mp member
    rw [found] at read
    cases read.2
  | some value =>
    apply Entries.get?_of_mem key (exact key) value _ (channels.nodup_keys_heldIn flat)
    exact (Entries.mem_ofWrites_filterMap _ _ (key, value)).mpr ⟨isKey, found⟩

/-- The fields are held as they were. -/
theorem declaredIn_heldIn (flat : Flat) :
    channels.declaredIn (channels.heldIn flat) = channels.declaredIn flat := by
  rw [declaredIn, declaredIn]
  congr 1
  apply List.filterMap_congr
  intro key isField
  rw [channels.get?_heldIn flat key (List.mem_append_left _ isField)]

/-- What is held under the fields' keys, and the rest. -/
theorem exists_perm_declaredIn {α : Type} (flat : List (String × α)) :
    ∃ rest, flat.Perm (channels.declaredIn flat ++ rest) := by
  have distinct : (channels.declaredIn flat).Nodup :=
    (channels.nodup_keys_declaredIn flat).of_map _
  have among : channels.declaredIn flat ⊆ flat := by
    intro entry member
    have read := ((Entries.mem_ofWrites_filterMap _ _ entry).mp member).2
    exact Entries.mem_of_get? entry.1 (isExact_of_lawful _) entry.2 flat read
  obtain ⟨front, same, inside⟩ := List.subperm_of_subset distinct among
  obtain ⟨rest, whole⟩ := inside.exists_perm_append
  exact ⟨rest, whole.trans (same.append_right rest)⟩

end Channels

/-! ## Collecting once -/

namespace Channels

open Entries (isExact_of_lawful)

/-- A store that holds what there is under the keys of channels, each mapping at an address of
its own. -/
structure Holds (channels : Channels) (flat : Flat) (store : Store)
    (located : List (String × Located)) : Prop where
  values : flatValues located = channels.heldIn flat
  forest : Forest store (flatNodes located)

variable {channels : Channels} {flat : Flat} {store : Store} {located : List (String × Located)}

/-- The keys of held channels are pairwise distinct. -/
theorem Holds.distinct (holds : channels.Holds flat store located) :
    (Entries.keys located).Nodup := by
  have keys : Entries.keys located = Entries.keys (flatValues located) := by
    simp [Entries.keys, flatValues, Function.comp_def]
  rw [keys, holds.values]
  exact channels.nodup_keys_heldIn flat

/-- The values of the fields. -/
theorem Holds.declared (holds : channels.Holds flat store located) :
    flatValues (channels.declaredIn located) = channels.declaredIn flat := by
  have mapped := channels.declaredIn_mapValues Located.value located
  rw [← channels.declaredIn_heldIn flat, ← holds.values]
  exact mapped.symm

/-- The mappings of the fields, and those of the other channels. -/
theorem Holds.exists_others (holds : channels.Holds flat store located) :
    ∃ rest, located.Perm (channels.declaredIn located ++ rest) ∧
      Forest store (flatNodes (channels.declaredIn located) ++ flatNodes rest) := by
  obtain ⟨rest, order⟩ := channels.exists_perm_declaredIn located
  refine ⟨rest, order, holds.forest.perm ?_⟩
  rw [← flatNodes_append]
  exact order.flatMap_right _

/-- What is located under the key of a channel is what there was. -/
theorem Holds.get? (holds : channels.Holds flat store located) (key : String)
    (isKey : key ∈ channels.keys) :
    Entries.get? key flat = (Entries.get? key located).map Located.value := by
  rw [← channels.get?_heldIn flat key isKey, ← holds.values]
  exact Entries.get?_mapValues Located.value key located

/-- The fields as they are held. -/
theorem declaredIn_heldItems (located : List (String × Located)) :
    channels.declaredIn (heldItems located) = heldItems (channels.declaredIn located) :=
  channels.declaredIn_mapValues Located.item located

/-- The key of an overflow channel is one of the channels'. -/
theorem overflowKey_mem_keys (channels : Channels) (side : Section) :
    channels.overflowKey side ∈ channels.keys :=
  List.mem_append_right _ (List.mem_map_of_mem side.mem_all)

/-- What nesting the fields leaves in an overflow that is nested itself. -/
theorem Holds.value_of_mem (holds : channels.Holds flat store located) (key : String)
    (part : Located) (isField : (key, part) ∈ channels.declaredIn located) :
    Flat.leftUnder? channels.separator key (channels.declaredIn flat) =
      some ((store.nest channels.separator (heldItems (channels.declaredIn located))).value
        part.item) := by
  obtain ⟨rest, -, forest⟩ := holds.exists_others
  obtain ⟨earlier, later, parts⟩ := List.append_of_mem isField
  have fresh : key ∉ Entries.keys (flatValues earlier) := by
    have distinct := channels.nodup_keys_declaredIn located
    rw [parts, Entries.keys, List.map_append, List.map_cons, List.nodup_append] at distinct
    intro present
    obtain ⟨entry, member, same⟩ := List.mem_map.mp present
    obtain ⟨origin, inEarlier, rfl⟩ := List.mem_map.mp member
    exact distinct.2.2 _ (List.mem_map_of_mem inEarlier) _ List.mem_cons_self same
  have left := forest.value_of_nested_entry channels.separator _ key part later
    (parts ▸ List.suffix_append earlier _)
  rw [left, ← holds.declared, parts, flatValues, List.map_append, List.map_cons]
  exact Flat.leftUnder?_around _ _ _ _ _ fresh

/-- What nesting the fields leaves in an overflow. -/
theorem Holds.value_overflow (holds : channels.Holds flat store located) (side : Section) :
    let after := store.nest channels.separator (heldItems (channels.declaredIn located))
    ((Entries.get? (channels.overflowKey side) (heldItems located)).map after.value).getD .null =
      channels.overflowLeft flat side := by
  dsimp only
  have read := holds.get? _ (channels.overflowKey_mem_keys side)
  have exact := isExact_of_lawful (channels.overflowKey side)
  have items : Entries.get? (channels.overflowKey side) (heldItems located) =
      (Entries.get? (channels.overflowKey side) located).map Located.item :=
    Entries.get?_mapValues Located.item _ located
  rw [items, overflowLeft]
  by_cases isField : channels.overflowKey side ∈ Entries.keys (channels.declaredIn located)
  · obtain ⟨⟨key, part⟩, member, same⟩ := List.mem_map.mp isField
    obtain rfl : key = channels.overflowKey side := same
    have found := ((Entries.mem_ofWrites_filterMap _ _ _).mp member).2
    rw [holds.value_of_mem _ part member, found]
    rfl
  · have absent : channels.overflowKey side ∉ Entries.keys (channels.declaredIn flat) := by
      rw [← holds.declared]
      simpa [Entries.keys, flatValues, Function.comp_def] using isField
    rw [(Flat.leftUnder?_eq_none_iff _ _ _).mpr absent, Option.none_or, read]
    cases found : Entries.get? (channels.overflowKey side) located with
    | none => rfl
    | some part =>
      obtain ⟨rest, order, forest⟩ := holds.exists_others
      have member := Entries.mem_of_get? _ exact part located found
      have other : (channels.overflowKey side, part) ∈ rest := by
        rcases List.mem_append.mp (order.mem_iff.mp member) with field | other
        · exact absurd (List.mem_map_of_mem field) isField
        · exact other
      have kept := forest.value_of_other channels.separator _ part
        (List.sublist_flatten_of_mem (List.mem_map_of_mem other))
      rw [Option.map_some, Option.map_some, Option.getD_some, kept, Option.map_some,
        Option.getD_some]

/-- A record is collected from held channels as from their values. -/
theorem Holds.collect (holds : channels.Holds flat store located) :
    let after := store.nest channels.separator (heldItems (channels.declaredIn located))
    channels.collect (after.nested store.length) (fun side =>
        ((Entries.get? (channels.overflowKey side) (heldItems located)).map after.value).getD
          .null) =
      channels.decode flat := by
  intro after
  obtain ⟨rest, -, forest⟩ := holds.exists_others
  have nested := forest.nested_nest channels.separator
  rw [holds.declared] at nested
  rw [decode, nested, funext holds.value_overflow]

/-- Channels are held in an empty store. -/
theorem exists_holds (channels : Channels) (flat : Flat) :
    ∃ located, (Store.holdFlat [] (channels.heldIn flat)).1 = heldItems located ∧
      channels.Holds flat (Store.holdFlat [] (channels.heldIn flat)).2 located := by
  obtain ⟨located, held, values, grown⟩ := exists_located_holdFlat [] (channels.heldIn flat)
  exact ⟨located, held, values, grown.forest⟩

/-! ## Collecting again -/

/-- As long as the channels are held as they were, a record is collected from them as at first. -/
theorem decodeAfter_of_kept (channels : Channels) (times : Nat) (flat : Flat)
    (kept : ∀ fields store, store <+: Store.nestTimes channels.separator
      (channels.declaredIn fields) times store) :
    channels.decodeAfter times flat = channels.decode flat := by
  obtain ⟨located, held, holds⟩ := channels.exists_holds flat
  have before : channels.Holds flat (Store.nestTimes channels.separator
      (channels.declaredIn (heldItems located)) times _) located :=
    ⟨holds.values, holds.forest.of_prefix (kept _ _)⟩
  rw [← before.collect, ← channels.declaredIn_heldItems]
  dsimp only [decodeAfter]
  rw [held]

/-- The record is first collected from channels as they hold it. -/
theorem decodeAfter_zero (channels : Channels) (flat : Flat) :
    channels.decodeAfter 0 flat = channels.decode flat :=
  channels.decodeAfter_of_kept 0 flat fun _ _ => List.prefix_rfl

/-! ## Names without the separator -/

/-- The key of each declared field leads to a single name, or nowhere. -/
def LeadsToNames (channels : Channels) : Prop :=
  ∀ key ∈ channels.fieldKeys, ∀ side path,
    Flat.place? channels.separator key = some (side, path) → ∃ name, path = [name]

/-- Where nothing is said of any field, the fields lead to their names. -/
theorem leadsToNames_of_silent {separator : Separator} {schemas : Schemas}
    (silent : (ofSchemas separator schemas).diagnostics = []) :
    (ofSchemas separator schemas).LeadsToNames := by
  intro key isKey side path leads
  obtain ⟨origin, name, declared, rfl⟩ := (mem_fieldKeys_iff key).mp isKey
  have single := (separator.split_single_iff name).mpr
    (diagnostics_eq_nil_iff.mp silent origin name declared)
  have separators : (ofSchemas separator schemas).separator = separator := rfl
  rw [separators, place?_key_single, single] at leads
  split_ifs at leads
  exact ⟨name, (Prod.mk.inj (Option.some.inj leads)).2.symm⟩

/-- Placing an entry that leads to a name, or nowhere, writes into a section only. -/
theorem prefix_place (separator : Separator) {store after : Store} (kept : store <+: after)
    (entry : String × Item) (single : ∀ side path,
      Flat.place? separator entry.1 = some (side, path) → ∃ name, path = [name]) :
    store <+: Store.place separator store.length after entry := by
  rw [Store.place]
  split
  · next side path leads =>
    obtain ⟨name, rfl⟩ := single side path leads
    obtain ⟨more, rfl⟩ := kept
    have behind : store.length ≤ Store.root store.length side := by
      cases side <;> simp [Store.root]
    rw [Store.assign, List.set_append_right _ _ behind]
    exact List.prefix_append _ _
  · exact kept

/-- Nesting fields that lead to names changes nothing that a store has. -/
theorem LeadsToNames.prefix_nest (leads : channels.LeadsToNames) (items : List (String × Item))
    (store : Store) : store <+: store.nest channels.separator (channels.declaredIn items) := by
  have single : ∀ entry ∈ channels.declaredIn items, ∀ side path,
      Flat.place? channels.separator entry.1 = some (side, path) → ∃ name, path = [name] :=
    fun entry member => leads entry.1 ((Entries.mem_ofWrites_filterMap _ _ entry).mp member).1
  have placed : ∀ entries : List (String × Item), (∀ entry ∈ entries, ∀ side path,
      Flat.place? channels.separator entry.1 = some (side, path) → ∃ name, path = [name]) →
        ∀ after, store <+: after →
          store <+: entries.foldl (Store.place channels.separator store.length) after := by
    intro entries
    induction entries with
    | nil => exact fun _ _ kept => kept
    | cons entry rest ih =>
      intro single after kept
      exact ih (fun other member => single other (List.mem_cons_of_mem _ member)) _
        (prefix_place _ kept entry (single entry List.mem_cons_self))
  exact placed _ single _ (List.prefix_append _ _)

/-- However often it is done. -/
theorem LeadsToNames.prefix_nestTimes (leads : channels.LeadsToNames)
    (items : List (String × Item)) (times : Nat) (store : Store) :
    store <+: Store.nestTimes channels.separator (channels.declaredIn items) times store := by
  induction times generalizing store with
  | zero => exact List.prefix_rfl
  | succ times ih => exact (leads.prefix_nest items store).trans (ih _)

/-- Where the fields lead to names, a record is collected every time as at first. -/
theorem LeadsToNames.decodeAfter (leads : channels.LeadsToNames) (times : Nat) (flat : Flat) :
    channels.decodeAfter times flat = channels.decode flat :=
  channels.decodeAfter_of_kept times flat fun _ _ => leads.prefix_nestTimes _ times _

/-- With clear names a record is collected every time as at first. -/
theorem ClearNames.decodeAfter {separator : Separator} {schemas : Schemas}
    (clear : ClearNames separator schemas) (times : Nat) (flat : Flat) :
    (ofSchemas separator schemas).decodeAfter times flat =
      (ofSchemas separator schemas).decode flat :=
  (leadsToNames_of_silent (diagnostics_eq_nil_iff.mpr clear.apart)).decodeAfter times flat

end Channels

/-! ## The record that was spread -/

/-- More mappings behind those that a store has do not matter to what was added. -/
theorem Grown.append {store after : Store} {nodes : List Node} (grown : Grown store after nodes)
    (more : Store) : Grown store (after ++ more) nodes :=
  ⟨grown.kept.trans (List.prefix_append _ _), grown.forest.of_prefix (List.prefix_append _ _),
    grown.behind⟩

mutual

/-- A value that is held together with its leaves is located behind what the store had. -/
theorem exists_located_holdLeaves (whole : List String → Bool) (path : List String)
    (store : Store) : ∀ value : Value, ∃ located : Located,
      (store.holdLeaves whole path value).1 = located.item ∧ located.value = value ∧
        Grown store (store.holdLeaves whole path value).2.2 located.nodes
  | .mapping entries => by
    rw [Store.holdLeaves]
    split_ifs with stays
    · obtain ⟨parts, held, same, grown⟩ := exists_located_holdEntries store entries
      refine ⟨.mapping (store.holdEntries entries).2.length parts, rfl, ?_, ?_⟩
      · rw [Located.value, same]
      · dsimp only
        rw [held, ← List.singleton_append (l := [items parts]), ← List.append_assoc]
        exact grown.mapping.append [items parts]
    · obtain ⟨parts, held, same, grown⟩ :=
        exists_located_holdLeavesOfEntries whole path store entries
      refine ⟨.mapping (store.holdLeavesOfEntries whole path entries).2.2.length parts, rfl, ?_, ?_⟩
      · rw [Located.value, same]
      · dsimp only
        rw [held]
        exact grown.mapping
  | .null => ⟨.plain .null rfl, rfl, rfl, .refl store⟩
  | .bool b => ⟨.plain (.bool b) rfl, rfl, rfl, .refl store⟩
  | .int n => ⟨.plain (.int n) rfl, rfl, rfl, .refl store⟩
  | .real x => ⟨.plain (.real x) rfl, rfl, rfl, .refl store⟩
  | .text s => ⟨.plain (.text s) rfl, rfl, rfl, .refl store⟩
  | .list parts => ⟨.plain (.list parts) rfl, rfl, rfl, .refl store⟩
  | .tuple parts => ⟨.plain (.tuple parts) rfl, rfl, rfl, .refl store⟩
  | .set frozen members => ⟨.plain (.set frozen members) rfl, rfl, rfl, .refl store⟩
  | .replacement held => ⟨.plain (.replacement held) rfl, rfl, rfl, .refl store⟩

/-- Entries that are held together with their leaves are located behind what the store had. -/
theorem exists_located_holdLeavesOfEntries (whole : List String → Bool) (path : List String)
    (store : Store) : ∀ entries : List (Key × Value), ∃ parts : List (Key × Located),
      (store.holdLeavesOfEntries whole path entries).1 = items parts ∧
        Located.values parts = entries ∧
          Grown store (store.holdLeavesOfEntries whole path entries).2.2 (nodesOf parts)
  | [] => ⟨[], rfl, rfl, .refl store⟩
  | (key, value) :: rest => by
    obtain ⟨first, held, same, grown⟩ :=
      exists_located_holdLeaves whole (path ++ [key.plain]) store value
    obtain ⟨others, heldRest, sameRest, grownRest⟩ := exists_located_holdLeavesOfEntries whole path
      (store.holdLeaves whole (path ++ [key.plain]) value).2.2 rest
    refine ⟨(key, first) :: others, ?_, ?_, grown.trans grownRest⟩
    · dsimp only [Store.holdLeavesOfEntries]
      rw [held, heldRest]
      rfl
    · rw [Located.values, same, sameRest]

end

/-- A section that is held together with its entries is located behind what the store had. -/
theorem exists_located_holdSection (separator : Separator) (whole : List String) (side : Section)
    (store : Store) (value : Value) : ∃ located : Located,
      (store.holdSection separator whole side value).1 = located.item ∧ located.value = value ∧
        Grown store (store.holdSection separator whole side value).2.2 located.nodes := by
  cases value with
  | mapping entries =>
    let staysWhole := fun path => whole.contains (Flat.key separator side path)
    obtain ⟨parts, held, same, grown⟩ :=
      exists_located_holdLeavesOfEntries staysWhole [] store entries
    refine ⟨.mapping (store.holdLeavesOfEntries staysWhole [] entries).2.2.length parts, rfl, ?_,
      ?_⟩
    · rw [Located.value, same]
    · dsimp only [Store.holdSection]
      rw [held]
      exact grown.mapping
  | _ => exact ⟨.plain _ rfl, rfl, rfl, .refl store⟩

namespace Channels

variable {channels : Channels}

/-- As long as nothing is changed that the store has, nothing is changed in the sections. -/
theorem sectionsAfter_of_kept (channels : Channels) (times : Nat) (flat : Flat)
    (sections : Sections)
    (kept : ∀ fields store, store <+: Store.nestTimes channels.separator
      (channels.declaredIn fields) times store) :
    channels.sectionsAfter times flat sections = sections := by
  let inputHeld := Store.holdSection channels.separator channels.fieldKeys .input []
    sections.input
  let outputHeld := Store.holdSection channels.separator channels.fieldKeys .output
    inputHeld.2.2 sections.output
  obtain ⟨input, heldInput, inputValue, inputGrown⟩ : ∃ located : Located, inputHeld.1 = _ ∧ _ :=
    exists_located_holdSection _ _ _ _ _
  obtain ⟨output, heldOutput, outputValue, outputGrown⟩ :
      ∃ located : Located, outputHeld.1 = _ ∧ _ := exists_located_holdSection _ _ _ _ _
  have stays : ∀ after : Store, (outputHeld.2.2.holdFlat (channels.heldIn flat)).2 <+: after →
      after.value inputHeld.1 = sections.input ∧ after.value outputHeld.1 = sections.output := by
    intro after further
    obtain ⟨_, -, -, rest⟩ := exists_located_holdFlat outputHeld.2.2 (channels.heldIn flat)
    have whole : Forest after (input.nodes ++ output.nodes) :=
      (inputGrown.trans outputGrown).forest.of_prefix (rest.kept.trans further)
    have first := (whole.sublist (List.sublist_append_left _ _)).value_item
    have second := (whole.sublist (List.sublist_append_right _ _)).value_item
    rw [heldInput, heldOutput, first, second]
    exact ⟨inputValue, outputValue⟩
  obtain ⟨inputStays, outputStays⟩ := stays _ (kept _ _)
  dsimp only [sectionsAfter]
  rw [inputStays, outputStays]

/-- Where the fields lead to names, the sections stay as they were. -/
theorem LeadsToNames.sectionsAfter (leads : channels.LeadsToNames) (times : Nat) (flat : Flat)
    (sections : Sections) : channels.sectionsAfter times flat sections = sections :=
  channels.sectionsAfter_of_kept times flat sections fun _ _ => leads.prefix_nestTimes _ times _

end Channels
end Stepwise
