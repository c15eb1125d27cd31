import Mathlib.Data.List.Nodup
import Mathlib.Data.List.Perm.Basic
import Stepwise.Value

/-!
# Reading entries after writing them

What an ordered list of entries holds under a key after writes, for keys that nothing
else counts as. Texts are such keys, and they are told apart from all others; numbers
are not, because a truth value can count as one.

A list of entries is named when its keys are texts and none occurs twice. Named entries
are determined, up to their order, by what is read under each text.
-/

namespace Stepwise.Entries

variable {κ α : Type} [BEq κ]

/-- A key that nothing but itself counts as. -/
def IsExact (key : κ) : Prop := ∀ present : κ, (present == key) = true ↔ present = key

/-- Every text is an exact key among the keys of a mapping. -/
theorem isExact_text (name : String) : IsExact (Key.text name) := fun present =>
  Key.beq_text_iff present name

/-- Where `==` is equality, every key is exact. -/
theorem isExact_of_lawful [LawfulBEq κ] (key : κ) : IsExact key := fun _ => beq_iff_eq

/-- Reading under an exact key looks at the first entry with that very key. -/
theorem get?_cons_exact (key : κ) (exact : IsExact key) (present : κ) (value : α)
    (rest : List (κ × α)) [Decidable (present = key)] :
    get? key ((present, value) :: rest) = if present = key then some value else get? key rest := by
  by_cases same : present = key
  · have counted : (present == key) = true := (exact present).mpr same
    rw [get?, if_pos counted, if_pos same]
  · have apart : (present == key) = false := by
      simpa using fun counted => same ((exact present).mp counted)
    simp [get?, apart, same]

/-- The first entry is read under its own key. -/
theorem get?_cons_same (key : κ) (exact : IsExact key) (value : α) (rest : List (κ × α)) :
    get? key ((key, value) :: rest) = some value := by
  classical
  rw [get?_cons_exact key exact, if_pos rfl]

/-- The first entry is passed over under another key. -/
theorem get?_cons_other (key : κ) (exact : IsExact key) (present : κ) (apart : present ≠ key)
    (value : α) (rest : List (κ × α)) : get? key ((present, value) :: rest) = get? key rest := by
  classical
  rw [get?_cons_exact key exact, if_neg apart]

/-- An exact key reads nothing exactly when it is absent. -/
theorem get?_eq_none_exact (key : κ) (exact : IsExact key) (entries : List (κ × α)) :
    get? key entries = none ↔ key ∉ keys entries := by
  classical
  induction entries with
  | nil => simp
  | cons entry rest ih =>
    rw [get?_cons_exact key exact entry.1 entry.2 rest]
    by_cases same : entry.1 = key
    · simp [same]
    · simp [same, ih, Ne.symm same]

/-- An exact key reads something exactly when it is present. -/
theorem get?_isSome_exact (key : κ) (exact : IsExact key) (entries : List (κ × α)) :
    (∃ value, get? key entries = some value) ↔ key ∈ keys entries := by
  rw [← not_iff_not, ← get?_eq_none_exact key exact entries, ← Option.isSome_iff_exists]
  simp

/-- What is read under an exact key is one of the entries. -/
theorem mem_of_get? (key : κ) (exact : IsExact key) (value : α) (entries : List (κ × α))
    (found : get? key entries = some value) : (key, value) ∈ entries := by
  classical
  induction entries with
  | nil => simp at found
  | cons entry rest ih =>
    rw [get?_cons_exact key exact entry.1 entry.2 rest] at found
    by_cases same : entry.1 = key
    · simp only [same, if_true, Option.some.injEq] at found
      have whole : entry = (key, value) := Prod.ext same found
      exact whole ▸ List.mem_cons_self
    · rw [if_neg same] at found
      exact List.mem_cons_of_mem _ (ih found)

/-- When no key occurs twice, every entry is read under its key. -/
theorem get?_of_mem (key : κ) (exact : IsExact key) (value : α) (entries : List (κ × α))
    (distinct : (keys entries).Nodup) (member : (key, value) ∈ entries) :
    get? key entries = some value := by
  classical
  induction entries with
  | nil => simp at member
  | cons entry rest ih =>
    obtain ⟨fresh, restDistinct⟩ := List.nodup_cons.mp distinct
    rw [get?_cons_exact key exact entry.1 entry.2 rest]
    rcases List.mem_cons.mp member with first | later
    · simp [← first]
    · have inRest : key ∈ keys rest := List.mem_map_of_mem later
      have apart : entry.1 ≠ key := fun same => fresh (same ▸ inRest)
      rw [if_neg apart]
      exact ih restDistinct later

/-- Reading in two lists, one behind the other, prefers the first. -/
theorem get?_append (key : κ) (first second : List (κ × α)) :
    get? key (first ++ second) = (get? key first).or (get? key second) := by
  induction first with
  | nil => simp
  | cons entry rest ih =>
    by_cases counted : entry.1 == key <;> simp [get?, counted, ih]

/-- Reading does not depend on the order of entries whose keys are distinct. -/
theorem get?_perm (key : κ) (exact : IsExact key) (entries others : List (κ × α))
    (distinct : (keys entries).Nodup) (order : entries.Perm others) :
    get? key entries = get? key others := by
  have othersDistinct : (keys others).Nodup := (order.map Prod.fst).nodup_iff.mp distinct
  cases found : get? key entries with
  | none =>
    have absent := (get?_eq_none_exact key exact entries).mp found
    have stillAbsent : key ∉ keys others := fun present =>
      absent ((order.map Prod.fst).mem_iff.mpr present)
    exact ((get?_eq_none_exact key exact others).mpr stillAbsent).symm
  | some value =>
    have member := order.mem_iff.mp (mem_of_get? key exact value entries found)
    exact (get?_of_mem key exact value others othersDistinct member).symm

/-- Writing under an exact key is seen under that key and under no other. -/
theorem get?_insert (key other : κ) (exact : IsExact key) (otherExact : IsExact other) (value : α)
    (entries : List (κ × α)) [Decidable (key = other)] :
    get? other (insert key value entries) =
      if key = other then some value else get? other entries := by
  classical
  induction entries with
  | nil => simp [insert, get?_cons_exact other otherExact]
  | cons entry rest ih =>
    obtain ⟨present, old⟩ := entry
    by_cases here : present = key
    · subst here
      simp only [insert, (exact present).mpr rfl, if_true, get?_cons_exact other otherExact]
      by_cases same : present = other <;> simp [same]
    · have apart : (present == key) = false := by
        simpa using fun counted => here ((exact present).mp counted)
      simp only [insert, apart, Bool.false_eq_true, if_false, get?_cons_exact other otherExact, ih]
      by_cases same : present = other
      · have distinct : key ≠ other := fun equal => here (same.trans equal.symm)
        simp [same, distinct]
      · simp [same]

/-- What is written under an exact key is read back. -/
theorem get?_insert_same (key : κ) (exact : IsExact key) (value : α) (entries : List (κ × α)) :
    get? key (insert key value entries) = some value := by
  classical
  rw [get?_insert key key exact exact, if_pos rfl]

/-- Writing under an exact key leaves what is read under another one. -/
theorem get?_insert_other (key other : κ) (exact : IsExact key) (otherExact : IsExact other)
    (apart : key ≠ other) (value : α) (entries : List (κ × α)) :
    get? other (insert key value entries) = get? other entries := by
  classical
  rw [get?_insert key other exact otherExact, if_neg apart]

/-- Writing under an exact key adds that key, if it is not there, and keeps the others. -/
theorem mem_keys_insert (key other : κ) (exact : IsExact key) (value : α)
    (entries : List (κ × α)) :
    other ∈ keys (insert key value entries) ↔ other = key ∨ other ∈ keys entries := by
  induction entries with
  | nil => simp [insert]
  | cons entry rest ih =>
    obtain ⟨present, old⟩ := entry
    by_cases counted : present == key
    · have here : present = key := (exact present).mp counted
      simp [insert, here, (exact key).mpr rfl]
    · simp only [insert, counted, Bool.false_eq_true, if_false, keys_cons, List.mem_cons, ih]
      tauto

/-- Writing under an exact key makes no key occur twice. -/
theorem nodup_keys_insert (key : κ) (exact : IsExact key) (value : α) (entries : List (κ × α))
    (distinct : (keys entries).Nodup) : (keys (insert key value entries)).Nodup := by
  induction entries with
  | nil => simp [insert]
  | cons entry rest ih =>
    obtain ⟨present, old⟩ := entry
    obtain ⟨fresh, restDistinct⟩ := List.nodup_cons.mp distinct
    by_cases counted : present == key
    · simpa [insert, counted] using distinct
    · have apart : present ≠ key := fun same => counted ((exact present).mpr same)
      simp only [insert, counted, Bool.false_eq_true, if_false, keys_cons]
      refine List.nodup_cons.mpr ⟨?_, ih restDistinct⟩
      intro present'
      rcases (mem_keys_insert key present exact value rest).mp present' with same | inRest
      · exact apart same
      · exact fresh inRest

/-- A new exact key goes to the end. -/
theorem insert_of_not_mem (key : κ) (exact : IsExact key) (value : α) (entries : List (κ × α))
    (absent : key ∉ keys entries) : insert key value entries = entries ++ [(key, value)] := by
  induction entries with
  | nil => rfl
  | cons entry rest ih =>
    obtain ⟨present, old⟩ := entry
    simp only [keys_cons, List.mem_cons, not_or] at absent
    have apart : (present == key) = false := by
      simpa using fun counted => absent.1 ((exact present).mp counted).symm
    simp [insert, apart, ih absent.2]

/-- Writing under an exact key behind entries that lack it leaves those as they are. -/
theorem insert_append (key : κ) (exact : IsExact key) (value : α) (first second : List (κ × α))
    (absent : key ∉ keys first) : insert key value (first ++ second) =
      first ++ insert key value second := by
  induction first with
  | nil => rfl
  | cons entry rest ih =>
    obtain ⟨present, old⟩ := entry
    simp only [keys_cons, List.mem_cons, not_or] at absent
    have apart : (present == key) = false := by
      simpa using fun counted => absent.1 ((exact present).mp counted).symm
    simp [insert, apart, ih absent.2]

/-- Every entry that stands after a write is the one written or stood there before. -/
theorem mem_insert (key : κ) (exact : IsExact key) (value : α) (entries : List (κ × α))
    (entry : κ × α) (member : entry ∈ insert key value entries) :
    entry = (key, value) ∨ entry ∈ entries := by
  induction entries with
  | nil => simpa [insert] using member
  | cons first rest ih =>
    obtain ⟨present, old⟩ := first
    by_cases counted : present == key
    · obtain rfl : present = key := (exact present).mp counted
      simp only [insert, counted, if_true, List.mem_cons] at member ⊢
      tauto
    · simp only [insert, counted, Bool.false_eq_true, if_false, List.mem_cons] at member ⊢
      rcases member with first | later
      · exact .inr (.inl first)
      · rcases ih later with written | kept
        · exact .inl written
        · exact .inr (.inr kept)

/-- Entries whose keys are all exact. -/
def AllExact (entries : List (κ × α)) : Prop := ∀ key ∈ keys entries, IsExact key

/-- Of several writes under an exact key the last is read, and without one what was
there before. -/
theorem get?_merge (key : κ) (exact : IsExact key) (entries writes : List (κ × α))
    (allExact : AllExact writes) :
    get? key (merge entries writes) = (get? key writes.reverse).or (get? key entries) := by
  classical
  induction writes generalizing entries with
  | nil => simp [merge]
  | cons write rest ih =>
    have writeExact : IsExact write.1 := allExact write.1 List.mem_cons_self
    have restExact : AllExact rest := fun other member =>
      allExact other (List.mem_cons_of_mem _ member)
    have unfolded : merge entries (write :: rest) = merge (insert write.1 write.2 entries) rest :=
      rfl
    rw [unfolded, ih _ restExact, get?_insert write.1 key writeExact exact, List.reverse_cons,
      get?_append, get?_cons_exact key exact write.1 write.2 []]
    by_cases same : write.1 = key <;> simp [same]

/-- Keys that are not written are read as before. -/
theorem get?_merge_of_not_mem (key : κ) (exact : IsExact key) (entries writes : List (κ × α))
    (allExact : AllExact writes) (absent : key ∉ keys writes) :
    get? key (merge entries writes) = get? key entries := by
  have unread : get? key writes.reverse = none := by
    rw [get?_eq_none_exact key exact]
    simpa [keys] using absent
  rw [get?_merge key exact entries writes allExact, unread, Option.none_or]

/-- A key that is written with one value only is read as that value. -/
theorem get?_merge_of_mem (key : κ) (exact : IsExact key) (value : α)
    (entries writes : List (κ × α)) (allExact : AllExact writes)
    (member : (key, value) ∈ writes) (only : ∀ other, (key, other) ∈ writes → other = value) :
    get? key (merge entries writes) = some value := by
  have written : key ∈ keys writes.reverse := by
    simpa [keys] using ⟨value, member⟩
  obtain ⟨found, read⟩ := (get?_isSome_exact key exact writes.reverse).mpr written
  have inWrites := List.mem_reverse.mp (mem_of_get? key exact found writes.reverse read)
  rw [get?_merge key exact entries writes allExact, read, only found inWrites, Option.some_or]

/-- Exact writes under distinct keys are all read. -/
theorem get?_merge_distinct (key : κ) (exact : IsExact key) (entries writes : List (κ × α))
    (allExact : AllExact writes) (distinct : (keys writes).Nodup) :
    get? key (merge entries writes) = (get? key writes).or (get? key entries) := by
  have backwards : (keys writes.reverse).Nodup := by
    simpa [keys, List.map_reverse] using distinct
  rw [get?_merge key exact entries writes allExact,
    get?_perm key exact writes.reverse writes backwards (List.reverse_perm writes)]

/-- Exact writes add their keys to those that are there. -/
theorem mem_keys_merge (key : κ) (entries writes : List (κ × α)) (allExact : AllExact writes) :
    key ∈ keys (merge entries writes) ↔ key ∈ keys writes ∨ key ∈ keys entries := by
  induction writes generalizing entries with
  | nil => simp [merge]
  | cons write rest ih =>
    have writeExact : IsExact write.1 := allExact write.1 List.mem_cons_self
    have restExact : AllExact rest := fun other member =>
      allExact other (List.mem_cons_of_mem _ member)
    have unfolded : merge entries (write :: rest) = merge (insert write.1 write.2 entries) rest :=
      rfl
    rw [unfolded, ih _ restExact, mem_keys_insert write.1 key writeExact]
    simp only [keys_cons, List.mem_cons]
    tauto

/-- Every entry that stands after exact writes is one of them or stood there before. -/
theorem mem_merge (entries writes : List (κ × α)) (allExact : AllExact writes) (entry : κ × α)
    (member : entry ∈ merge entries writes) : entry ∈ writes ∨ entry ∈ entries := by
  induction writes generalizing entries with
  | nil => exact .inr member
  | cons write rest ih =>
    have writeExact : IsExact write.1 := allExact write.1 List.mem_cons_self
    have restExact : AllExact rest := fun other later =>
      allExact other (List.mem_cons_of_mem _ later)
    rcases ih (insert write.1 write.2 entries) restExact member with written | before
    · exact .inl (List.mem_cons_of_mem _ written)
    · rcases mem_insert write.1 writeExact write.2 entries entry before with first | kept
      · exact .inl (first ▸ List.mem_cons_self)
      · exact .inr kept

/-- Exact writes make no key occur twice. -/
theorem nodup_keys_merge (entries writes : List (κ × α)) (allExact : AllExact writes)
    (distinct : (keys entries).Nodup) : (keys (merge entries writes)).Nodup := by
  induction writes generalizing entries with
  | nil => exact distinct
  | cons write rest ih =>
    have writeExact : IsExact write.1 := allExact write.1 List.mem_cons_self
    have restExact : AllExact rest := fun other member =>
      allExact other (List.mem_cons_of_mem _ member)
    exact ih (insert write.1 write.2 entries) restExact
      (nodup_keys_insert write.1 writeExact write.2 entries distinct)

/-- Writes under exact new keys, each written once, go to the end in their order. -/
theorem merge_of_disjoint (entries writes : List (κ × α)) (allExact : AllExact writes)
    (distinct : (keys writes).Nodup) (fresh : ∀ key ∈ keys writes, key ∉ keys entries) :
    merge entries writes = entries ++ writes := by
  induction writes generalizing entries with
  | nil => simp [merge]
  | cons write rest ih =>
    obtain ⟨notLater, restDistinct⟩ := List.nodup_cons.mp distinct
    have restExact : AllExact rest := fun other member =>
      allExact other (List.mem_cons_of_mem _ member)
    have unfolded : merge entries (write :: rest) = merge (insert write.1 write.2 entries) rest :=
      rfl
    have appended := insert_of_not_mem write.1 (allExact write.1 List.mem_cons_self) write.2 entries
      (fresh write.1 List.mem_cons_self)
    have restFresh : ∀ key ∈ keys rest, key ∉ keys (entries ++ [(write.1, write.2)]) := by
      intro key member
      have apart : key ≠ write.1 := by
        rintro rfl
        exact notLater member
      have absent := fresh key (List.mem_cons_of_mem _ member)
      simpa [keys, apart] using absent
    rw [unfolded, appended, ih _ restExact restDistinct restFresh]
    simp

/-- Exact writes under distinct keys are left as they were written. -/
theorem ofWrites_of_nodup (writes : List (κ × α)) (allExact : AllExact writes)
    (distinct : (keys writes).Nodup) : ofWrites writes = writes := by
  have appended := merge_of_disjoint [] writes allExact distinct (by simp)
  simpa [ofWrites] using appended

/-- Writes that are made by a rule from keys leave what the rule says of each key. -/
theorem mem_ofWrites_filterMap [LawfulBEq κ] (rule : κ → Option α) (wanted : List κ)
    (entry : κ × α) :
    entry ∈ ofWrites (wanted.filterMap fun key => (rule key).map fun value => (key, value)) ↔
      entry.1 ∈ wanted ∧ rule entry.1 = some entry.2 := by
  have exact : AllExact (wanted.filterMap fun key => (rule key).map fun value => (key, value)) :=
    fun key _ => isExact_of_lawful key
  have written : ∀ other : κ × α,
      other ∈ wanted.filterMap (fun key => (rule key).map fun value => (key, value)) ↔
        other.1 ∈ wanted ∧ rule other.1 = some other.2 := by
    rintro ⟨key, value⟩
    simp only [List.mem_filterMap, Option.map_eq_some_iff, Prod.mk.injEq]
    constructor
    · rintro ⟨other, isWanted, made, rules, rfl, rfl⟩
      exact ⟨isWanted, rules⟩
    · rintro ⟨isWanted, rules⟩
      exact ⟨key, isWanted, value, rules, rfl, rfl⟩
  constructor
  · intro member
    exact (written entry).mp (by simpa using mem_merge [] _ exact entry member)
  · intro ruled
    have read := get?_merge_of_mem entry.1 (isExact_of_lawful _) entry.2 [] _ exact
      ((written entry).mpr ruled) (by
        intro other again
        have rules := ((written (entry.1, other)).mp again).2
        rw [ruled.2] at rules
        exact (Option.some.inj rules).symm)
    exact mem_of_get? _ (isExact_of_lawful _) _ _ read

/-- Writing under an exact key what is read there changes nothing. -/
theorem insert_of_get? (key : κ) (exact : IsExact key) (value : α) (entries : List (κ × α))
    (found : get? key entries = some value) : insert key value entries = entries := by
  induction entries with
  | nil => simp at found
  | cons entry rest ih =>
    obtain ⟨present, old⟩ := entry
    by_cases counted : present == key
    · obtain rfl : present = key := (exact present).mp counted
      rw [get?_cons_same _ exact, Option.some.injEq] at found
      simp [insert, counted, found]
    · simp only [get?, counted, Bool.false_eq_true, if_false] at found
      simp [insert, counted, ih found]

/-- Writes that are made by a rule from keys add to entries of that rule one for each new
key. -/
theorem merge_of_rule [LawfulBEq κ] (rule : κ → α) (wanted : List κ) (entries : List (κ × α))
    (ruled : ∀ entry ∈ entries, entry.2 = rule entry.1) :
    ∃ added, merge entries (wanted.map fun key => (key, rule key)) = entries ++ added ∧
      ∀ entry, entry ∈ added ↔
        entry.1 ∈ wanted ∧ entry.1 ∉ keys entries ∧ entry.2 = rule entry.1 := by
  induction wanted generalizing entries with
  | nil => exact ⟨[], by simp [merge], by simp⟩
  | cons key rest ih =>
    have unfolded : merge entries ((key :: rest).map fun other => (other, rule other)) =
        merge (insert key (rule key) entries) (rest.map fun other => (other, rule other)) := rfl
    by_cases present : key ∈ keys entries
    · obtain ⟨value, found⟩ :=
        (get?_isSome_exact key (isExact_of_lawful key) entries).mpr present
      have same := ruled _ (mem_of_get? key (isExact_of_lawful key) value entries found)
      obtain ⟨added, merged, known⟩ := ih entries ruled
      refine ⟨added, ?_, fun entry => ?_⟩
      · rw [unfolded, insert_of_get? key (isExact_of_lawful key) _ _ (same ▸ found), merged]
      · rw [known entry, List.mem_cons]
        have apart : entry.1 ∉ keys entries → entry.1 ≠ key :=
          fun absent equal => absent (equal ▸ present)
        tauto
    · obtain ⟨added, merged, known⟩ := ih (entries ++ [(key, rule key)]) (by
        intro entry member
        rcases List.mem_append.mp member with before | last
        · exact ruled entry before
        · rw [List.mem_singleton.mp last])
      refine ⟨(key, rule key) :: added, ?_, fun entry => ?_⟩
      · rw [unfolded, insert_of_not_mem key (isExact_of_lawful key) _ _ present, merged,
          List.append_assoc, List.singleton_append]
      · rw [List.mem_cons, known entry, List.mem_cons]
        have appended : entry.1 ∉ keys (entries ++ [(key, rule key)]) ↔
            entry.1 ∉ keys entries ∧ entry.1 ≠ key := by
          simp [keys]
        rw [appended]
        constructor
        · rintro (rfl | ⟨inRest, ⟨absent, -⟩, made⟩)
          · exact ⟨.inl rfl, present, rfl⟩
          · exact ⟨.inr inRest, absent, made⟩
        · rintro ⟨inWanted, absent, made⟩
          by_cases here : entry.1 = key
          · exact .inl (Prod.ext here (by rw [made, here]))
          · exact .inr ⟨inWanted.resolve_left here, ⟨absent, here⟩, made⟩

/-- Of the writes that a rule makes from keys each stands where its key first occurs, before
those of the keys that occur behind it only. -/
theorem ofWrites_of_rule [LawfulBEq κ] (rule : κ → α) (before after : List κ) (key : κ)
    (fresh : key ∉ before) :
    ∃ earlier later, ofWrites ((before ++ key :: after).map fun other => (other, rule other)) =
        earlier ++ (key, rule key) :: later ∧
      ∀ entry, entry ∈ later ↔ entry.1 ∈ after ∧ entry.1 ∉ before ∧ entry.1 ≠ key ∧
        entry.2 = rule entry.1 := by
  obtain ⟨earlier, first, known⟩ := merge_of_rule rule before [] (by simp)
  have sameKeys : ∀ other, other ∈ keys earlier ↔ other ∈ before := by
    intro other
    constructor
    · intro present
      obtain ⟨entry, member, rfl⟩ := List.mem_map.mp present
      exact ((known entry).mp member).1
    · intro isBefore
      exact List.mem_map.mpr ⟨(other, rule other), (known _).mpr ⟨isBefore, by simp, rfl⟩, rfl⟩
  have ruled : ∀ entry ∈ earlier ++ [(key, rule key)], entry.2 = rule entry.1 := by
    intro entry member
    rcases List.mem_append.mp member with inEarlier | last
    · exact ((known entry).mp inEarlier).2.2
    · rw [List.mem_singleton.mp last]
  obtain ⟨later, second, laterKnown⟩ := merge_of_rule rule after _ ruled
  refine ⟨earlier, later, ?_, fun entry => ?_⟩
  · have split : ofWrites ((before ++ key :: after).map fun other => (other, rule other)) =
        merge (insert key (rule key) (merge [] (before.map fun other => (other, rule other))))
          (after.map fun other => (other, rule other)) := by
      simp [ofWrites, merge]
    rw [split, first, List.nil_append,
      insert_of_not_mem key (isExact_of_lawful key) _ _ (mt (sameKeys key).mp fresh), second]
    simp
  · have appended : entry.1 ∈ keys (earlier ++ [(key, rule key)]) ↔
        entry.1 ∈ before ∨ entry.1 = key := by
      rw [← sameKeys]
      simp [keys]
    rw [laterKnown entry, appended]
    tauto

/-- Entries under exact and distinct keys that read alike differ in their order only. -/
theorem perm_of_get? (entries others : List (κ × α)) (exact : AllExact entries)
    (othersExact : AllExact others) (distinct : (keys entries).Nodup)
    (othersDistinct : (keys others).Nodup)
    (same : ∀ key, IsExact key → get? key entries = get? key others) : entries.Perm others := by
  refine (List.perm_ext_iff_of_nodup distinct.of_map othersDistinct.of_map).mpr ?_
  rintro ⟨key, value⟩
  constructor
  · intro member
    have keyExact : IsExact key := exact key (List.mem_map_of_mem member)
    have found := get?_of_mem key keyExact value entries distinct member
    exact mem_of_get? key keyExact value others ((same key keyExact).symm.trans found)
  · intro member
    have keyExact : IsExact key := othersExact key (List.mem_map_of_mem member)
    have found := get?_of_mem key keyExact value others othersDistinct member
    exact mem_of_get? key keyExact value entries ((same key keyExact).trans found)

/-! ## Values changed by a rule -/

/-- Entries whose values are changed by a rule. -/
def mapValues {β : Type} (rule : α → β) (entries : List (κ × α)) : List (κ × β) :=
  entries.map fun entry => (entry.1, rule entry.2)

/-- Reading entries whose values are changed by a rule. -/
theorem get?_mapValues {β : Type} (rule : α → β) (key : κ) (entries : List (κ × α)) :
    get? key (mapValues rule entries) = (get? key entries).map rule := by
  induction entries with
  | nil => rfl
  | cons entry rest ih =>
    simp only [mapValues, List.map_cons, get?]
    split
    · rfl
    · exact ih

/-- Writing among entries whose values are changed by a rule. -/
theorem insert_mapValues {β : Type} (rule : α → β) (key : κ) (value : α)
    (entries : List (κ × α)) :
    mapValues rule (insert key value entries) =
      insert key (rule value) (mapValues rule entries) := by
  induction entries with
  | nil => rfl
  | cons entry rest ih =>
    simp only [mapValues, List.map_cons, insert]
    split
    · rfl
    · rw [List.map_cons]
      exact congrArg _ ih

/-- Writes whose values are changed by a rule. -/
theorem ofWrites_mapValues {β : Type} (rule : α → β) (writes : List (κ × α)) :
    mapValues rule (ofWrites writes) = ofWrites (mapValues rule writes) := by
  have onto : ∀ entries : List (κ × α), mapValues rule (merge entries writes) =
      merge (mapValues rule entries) (mapValues rule writes) := by
    induction writes with
    | nil => exact fun _ => rfl
    | cons write rest ih =>
      intro entries
      refine (ih (insert write.1 write.2 entries)).trans ?_
      rw [insert_mapValues]
      rfl
  exact onto []

/-- Entries as a mapping with texts as keys has them: every key is a text, and none occurs
twice. -/
structure Named (entries : List (Key × α)) : Prop where
  texts : ∀ key ∈ keys entries, ∃ name, key = Key.text name
  distinct : (keys entries).Nodup

/-- Named entries have exact keys. -/
theorem Named.allExact {entries : List (Key × α)} (named : Named entries) :
    AllExact entries := by
  intro key member
  obtain ⟨name, rfl⟩ := named.texts key member
  exact isExact_text name

/-- Behind the first of named entries stand named entries. -/
theorem Named.tail {entry : Key × α} {rest : List (Key × α)} (named : Named (entry :: rest)) :
    Named rest :=
  ⟨fun key later => named.texts key (List.mem_cons_of_mem _ later),
    (List.nodup_cons.mp named.distinct).2⟩

/-- Named entries stay named in any order. -/
theorem Named.perm {entries others : List (Key × α)} (named : Named entries)
    (order : entries.Perm others) : Named others := by
  have sameKeys : (keys entries).Perm (keys others) := order.map Prod.fst
  exact ⟨fun key member => named.texts key (sameKeys.mem_iff.mpr member),
    sameKeys.nodup_iff.mp named.distinct⟩

/-- Named entries that read alike under every text differ in their order only. -/
theorem Named.perm_of_get? {entries others : List (Key × α)} (named : Named entries)
    (othersNamed : Named others)
    (same : ∀ name, get? (Key.text name) entries = get? (Key.text name) others) :
    entries.Perm others := by
  apply Entries.perm_of_get? entries others named.allExact othersNamed.allExact named.distinct
    othersNamed.distinct
  intro key exact
  by_cases isText : ∃ name, key = Key.text name
  · obtain ⟨name, rfl⟩ := isText
    exact same name
  · have absent : ∀ list : List (Key × α), Named list → get? key list = none := by
      intro list listNamed
      rw [get?_eq_none_exact key exact]
      exact fun present => isText (listNamed.texts key present)
    rw [absent entries named, absent others othersNamed]

/-- Named entries behind others that share no key with them. -/
theorem Named.append {first second : List (Key × α)} (named : Named first)
    (behind : Named second) (disjoint : ∀ key ∈ keys second, key ∉ keys first) :
    Named (first ++ second) := by
  have split : keys (first ++ second) = keys first ++ keys second := List.map_append
  constructor
  · intro key member
    rw [split, List.mem_append] at member
    rcases member with inFirst | inSecond
    · exact named.texts key inFirst
    · exact behind.texts key inSecond
  · rw [split]
    refine List.Nodup.append named.distinct behind.distinct ?_
    intro key inFirst inSecond
    exact disjoint key inSecond inFirst

/-- No entries are named entries. -/
theorem named_nil : Named ([] : List (Key × α)) := ⟨by simp, by simp⟩

/-- Writes under texts leave named entries. -/
theorem Named.merge {entries writes : List (Key × α)} (named : Named entries)
    (texts : ∀ key ∈ keys writes, ∃ name, key = Key.text name) :
    Named (Entries.merge entries writes) := by
  have exact : AllExact writes := by
    intro key member
    obtain ⟨name, rfl⟩ := texts key member
    exact isExact_text name
  refine ⟨?_, nodup_keys_merge entries writes exact named.distinct⟩
  intro key member
  rcases (mem_keys_merge key entries writes exact).mp member with written | kept
  · exact texts key written
  · exact named.texts key kept

/-- Named entries stay named where one is written under a text. -/
theorem Named.insert {entries : List (Key × α)} (named : Named entries) (name : String)
    (value : α) : Named (Entries.insert (Key.text name) value entries) := by
  have merged : Named (Entries.merge entries [(Key.text name, value)]) := named.merge (by simp)
  exact merged

end Stepwise.Entries
