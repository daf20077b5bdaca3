import Metrology.Proofs.Catalog.Scale
import Metrology.Quantity.Fields

/-!
# What reading a quantity can come to

The fields of a quantity are stored one after the other, in a slot for the value and one for the unit.
As long as the keys are known and different (`WellKeyed`), the slots hold just what the fields say
(`Slots.Holds`), and every further field is stored, or refused at once because its key is unknown or was
there before.  So fields are read in the order in which they come only up to the first offending key; if
there is none, all that counts is which fields there are (`Describes`).

* `put_of_fresh`, `put_of_unknown`, `put_of_repeated`: one field.
* `exists_putAll`: all fields of a well-keyed list.
* `describes_or_refuses`: the fields describe a quantity, or there is a reason to refuse them.
* `reading_laws`: what is read, for every list and in every order.
-/

namespace Metrology.Quantity

open Result

/-- Every value is a number, and every unit a text. -/
def Typed (fields : List (String × Json)) : Prop :=
  ∀ f ∈ fields, (f.1 = "value" → ∃ x, f.2 = .number x) ∧ (f.1 = "unit" → ∃ s, f.2 = .string s)

/-- The keys are known, and none is there twice. -/
structure WellKeyed (fields : List (String × Json)) : Prop where
  known : ∀ f ∈ fields, f.1 = "value" ∨ f.1 = "unit"
  nodup : (fields.map Prod.fst).Nodup

/-- The slots hold what the fields say. -/
structure Slots.Holds (slots : Slots) (fields : List (String × Json)) : Prop where
  value_iff : ∀ x, slots.value? = some x ↔ ("value", .number x) ∈ fields
  unit_iff : ∀ s, slots.unit? = some s ↔ ("unit", .string s) ∈ fields

variable {r : Registry Float} {fields earlier later : List (String × Json)} {slots : Slots}
  {f : String × Json}

/-! ### Keys -/

theorem wellKeyed_nil : WellKeyed [] :=
  ⟨by simp, by simp⟩

theorem wellKeyed_append_singleton_iff : WellKeyed (earlier ++ [f]) ↔
    WellKeyed earlier ∧ (f.1 = "value" ∨ f.1 = "unit") ∧ f.1 ∉ earlier.map Prod.fst := by
  constructor
  · rintro ⟨hknown, hnodup⟩
    rw [List.map_append, List.map_singleton, List.nodup_append] at hnodup
    obtain ⟨hearlier, -, hfresh⟩ := hnodup
    refine ⟨⟨fun g hg => hknown g (List.mem_append_left _ hg), hearlier⟩,
      hknown f (List.mem_append_right _ List.mem_cons_self), fun hf => ?_⟩
    exact hfresh f.1 hf f.1 List.mem_cons_self rfl
  · rintro ⟨⟨hknown, hnodup⟩, hf, hfresh⟩
    refine ⟨fun g hg => ?_, ?_⟩
    · rcases List.mem_append.mp hg with hg | hg
      · exact hknown g hg
      · rwa [List.mem_singleton.mp hg]
    · rw [List.map_append, List.map_singleton, ← List.concat_eq_append]
      exact hnodup.concat hfresh

/-- A list is well-keyed, or it has a first key that is unknown or was there before. -/
theorem wellKeyed_or_exists_offending (fields : List (String × Json)) :
    WellKeyed fields ∨ ∃ earlier f later, fields = earlier ++ f :: later ∧ WellKeyed earlier ∧
      ¬WellKeyed (earlier ++ [f]) := by
  induction fields using List.reverseRecOn with
  | nil => exact .inl wellKeyed_nil
  | append_singleton fields f ih =>
    rcases ih with h | ⟨earlier, g, later, rfl, h, hg⟩
    · by_cases hf : WellKeyed (fields ++ [f])
      · exact .inl hf
      · exact .inr ⟨fields, f, [], rfl, h, hf⟩
    · exact .inr ⟨earlier, g, later ++ [f], by simp, h, hg⟩

/-! ### One field -/

theorem holds_start : (decoder r).start.Holds [] :=
  ⟨fun x => by simp [decoder], fun s => by simp [decoder]⟩

theorem Slots.Holds.isSome_value?_iff (h : slots.Holds fields) (ht : Typed fields) :
    slots.value?.isSome = true ↔ "value" ∈ fields.map Prod.fst := by
  rw [Option.isSome_iff_exists, List.mem_map]
  constructor
  · rintro ⟨x, hx⟩
    exact ⟨_, (h.value_iff x).mp hx, rfl⟩
  · rintro ⟨⟨key, value⟩, hf, rfl⟩
    obtain ⟨x, rfl⟩ := (ht _ hf).1 rfl
    exact ⟨x, (h.value_iff x).mpr hf⟩

theorem Slots.Holds.isSome_unit?_iff (h : slots.Holds fields) (ht : Typed fields) :
    slots.unit?.isSome = true ↔ "unit" ∈ fields.map Prod.fst := by
  rw [Option.isSome_iff_exists, List.mem_map]
  constructor
  · rintro ⟨s, hs⟩
    exact ⟨_, (h.unit_iff s).mp hs, rfl⟩
  · rintro ⟨⟨key, value⟩, hf, rfl⟩
    obtain ⟨s, rfl⟩ := (ht _ hf).2 rfl
    exact ⟨s, (h.unit_iff s).mpr hf⟩

theorem put_of_unknown {key : String} {value : Json} (hv : key ≠ "value") (hu : key ≠ "unit") :
    (decoder r).put slots key value = .error (.refused (.unknownField key)) := by
  have hdemand : (decoder r).demand slots key = .error (.unknownField key) := by
    simp [decoder, Slots.demand, hv, hu]
  rw [Json.Decoder.put, hdemand]
  rfl

/-- A key that was there before is refused. -/
theorem put_of_repeated {key : String} {value : Json} (h : slots.Holds earlier)
    (ht : Typed earlier) (hkey : key = "value" ∨ key = "unit")
    (hrepeated : key ∈ earlier.map Prod.fst) :
    (decoder r).put slots key value = .error (.refused (.duplicateField key)) := by
  have hdemand : (decoder r).demand slots key = .error (.duplicateField key) := by
    rcases hkey with rfl | rfl
    · have hsome := (h.isSome_value?_iff ht).mpr hrepeated
      simp [decoder, Slots.demand, hsome]
    · have hsome := (h.isSome_unit?_iff ht).mpr hrepeated
      simp [decoder, Slots.demand, hsome]
  rw [Json.Decoder.put, hdemand]
  rfl

/-- A field with a new key is stored. -/
theorem put_of_fresh (h : slots.Holds earlier) (ht : Typed (earlier ++ [f]))
    (hk : WellKeyed (earlier ++ [f])) :
    ∃ slots', (decoder r).put slots f.1 f.2 = .ok slots' ∧ slots'.Holds (earlier ++ [f]) := by
  obtain ⟨-, hkey, hfresh⟩ := wellKeyed_append_singleton_iff.mp hk
  have hearlier : Typed earlier := fun g hg => ht g (List.mem_append_left _ hg)
  have hf := ht f (List.mem_append_right _ List.mem_cons_self)
  obtain ⟨key, value⟩ := f
  rcases hkey with rfl | rfl
  · obtain ⟨x, rfl⟩ := hf.1 rfl
    have hnone : slots.value? = none := by
      rw [← Option.not_isSome_iff_eq_none, h.isSome_value?_iff hearlier]
      exact hfresh
    refine ⟨{ slots with value? := some x }, ?_, ?_, ?_⟩
    · simp only [Json.Decoder.put, decoder, Slots.demand, hnone]
      rfl
    · intro y
      have hy : ("value", Json.number y) ∉ earlier := fun hy =>
        hfresh (List.mem_map.mpr ⟨_, hy, rfl⟩)
      simp [hy, eq_comm]
    · intro s
      simp [h.unit_iff]
  · obtain ⟨s, rfl⟩ := hf.2 rfl
    have hnone : slots.unit? = none := by
      rw [← Option.not_isSome_iff_eq_none, h.isSome_unit?_iff hearlier]
      exact hfresh
    refine ⟨{ slots with unit? := some s }, ?_, ?_, ?_⟩
    · simp only [Json.Decoder.put, decoder, Slots.demand, hnone]
      rfl
    · intro x
      simp [h.value_iff]
    · intro t
      have ht : ("unit", Json.string t) ∉ earlier := fun ht =>
        hfresh (List.mem_map.mpr ⟨_, ht, rfl⟩)
      simp [ht, eq_comm]

/-! ### All fields -/

theorem putAll_append {σ ε α : Type} (d : Json.Decoder σ ε α) (held : σ)
    (l l' : List (String × Json)) :
    d.putAll held (l ++ l') = (d.putAll held l).bind fun held => d.putAll held l' := by
  induction l generalizing held with
  | nil => rfl
  | cons f l ih =>
    obtain ⟨key, value⟩ := f
    change (d.put held key value).bind _ = ((d.put held key value).bind _).bind _
    cases d.put held key value with
    | error e => rfl
    | ok held => exact ih held

theorem putAll_singleton {σ ε α : Type} (d : Json.Decoder σ ε α) (held : σ) (f : String × Json) :
    d.putAll held [f] = d.put held f.1 f.2 := by
  change (d.put held f.1 f.2).bind _ = _
  cases d.put held f.1 f.2 <;> rfl

/-- Fields with known and different keys are all stored. -/
theorem exists_putAll (ht : Typed fields) (hk : WellKeyed fields) :
    ∃ slots, (decoder r).putAll (decoder r).start fields = .ok slots ∧ slots.Holds fields := by
  induction fields using List.reverseRecOn with
  | nil => exact ⟨_, rfl, holds_start⟩
  | append_singleton fields f ih =>
    obtain ⟨slots, hslots, hholds⟩ := ih (fun g hg => ht g (List.mem_append_left _ hg))
      (wellKeyed_append_singleton_iff.mp hk).1
    obtain ⟨slots', hput, hholds'⟩ := put_of_fresh (r := r) hholds ht hk
    refine ⟨slots', ?_, hholds'⟩
    rw [putAll_append, hslots]
    exact (putAll_singleton _ _ _).trans hput

/-- Fields are refused at the first key that is unknown or was there before, and the error names it. -/
theorem ofFields_of_offending {key : String} {value : Json} {e : FieldError}
    (ht : Typed earlier) (hk : WellKeyed earlier)
    (hput : ∀ slots, slots.Holds earlier → (decoder r).put slots key value = .error (.refused e)) :
    ofFields r (earlier ++ (key, value) :: later) = .error (.refused e) := by
  obtain ⟨slots, hslots, hholds⟩ := exists_putAll (r := r) ht hk
  have hcons : (decoder r).putAll slots ((key, value) :: later) = .error (.refused e) := by
    change ((decoder r).put slots key value).bind _ = _
    rw [hput slots hholds]
    rfl
  have hall : (decoder r).putAll (decoder r).start (earlier ++ (key, value) :: later) =
      .error (.refused e) := by
    rw [putAll_append, hslots]
    exact hcons
  rw [ofFields, Json.Decoder.ofMembers, hall]
  rfl

theorem ofFields_of_wellKeyed (ht : Typed fields) (hk : WellKeyed fields) :
    ∃ slots : Slots, slots.Holds fields ∧
      ofFields r fields = Json.Decoder.orRefusal (slots.toQuantity r) := by
  obtain ⟨slots, hslots, hholds⟩ := exists_putAll (r := r) ht hk
  refine ⟨slots, hholds, ?_⟩
  rw [ofFields, Json.Decoder.ofMembers, hslots]
  rfl

/-! ### What fields describe -/

/-- The fields have the value of a quantity, and no unit, the unit `1` or the name of its unit. -/
structure Describes (r : Registry Float) (fields : List (String × Json)) (q : Quantity Float) :
    Prop where
  value : ("value", .number q.value) ∈ fields
  unit : (∀ s, ("unit", .string s) ∈ fields → s = "1") ∧ q.unit = .one ∨
    ∃ s, ("unit", .string s) ∈ fields ∧ s ≠ "1" ∧ r.get? s = some q.unit

/-- Why fields are no quantity: the first key that is unknown or was there before; if there is none, the
value that is not there; if it is there, the unit that is not registered. -/
inductive Refuses (r : Registry Float) (fields : List (String × Json)) : FieldError → Prop
  | unknownField {earlier later key value} (h : fields = earlier ++ (key, value) :: later)
      (hk : WellKeyed earlier) (hv : key ≠ "value") (hu : key ≠ "unit") :
      Refuses r fields (.unknownField key)
  | duplicateField {earlier later key value} (h : fields = earlier ++ (key, value) :: later)
      (hk : WellKeyed earlier) (hkey : key ∈ earlier.map Prod.fst) :
      Refuses r fields (.duplicateField key)
  | missingValue (hk : WellKeyed fields) (hv : "value" ∉ fields.map Prod.fst) :
      Refuses r fields .missingValue
  | unknownUnit {s} (hk : WellKeyed fields) (hv : "value" ∈ fields.map Prod.fst)
      (hs : ("unit", .string s) ∈ fields) (h1 : s ≠ "1") (hu : r.get? s = none) :
      Refuses r fields (.unknownUnit s)

theorem ofFields_of_describes {q : Quantity Float} (ht : Typed fields) (hk : WellKeyed fields)
    (h : Describes r fields q) : ofFields r fields = .ok q := by
  obtain ⟨slots, hholds, hread⟩ := ofFields_of_wellKeyed (r := r) ht hk
  have hvalue : slots.value? = some q.value := (hholds.value_iff _).mpr h.value
  rw [hread]
  rcases h.unit with ⟨hone, hu⟩ | ⟨s, hs, h1, hu⟩
  · have hq : number q.value = q := by rw [number, ← hu]
    cases hunit : slots.unit? with
    | none => simp [Slots.toQuantity, hvalue, hunit, hq, Json.Decoder.orRefusal]
    | some s =>
      obtain rfl := hone s ((hholds.unit_iff s).mp hunit)
      simp [Slots.toQuantity, hvalue, hunit, hq, Json.Decoder.orRefusal]
  · have hunit : slots.unit? = some s := (hholds.unit_iff s).mpr hs
    simp [Slots.toQuantity, hvalue, hunit, h1, hu, Json.Decoder.orRefusal]

theorem ofFields_of_refuses {e : FieldError} (ht : Typed fields) (h : Refuses r fields e) :
    ofFields r fields = .error (.refused e) := by
  cases h with
  | unknownField hf hk hv hu =>
    subst hf
    exact ofFields_of_offending (fun g hg => ht g (List.mem_append_left _ hg)) hk
      fun slots _ => put_of_unknown hv hu
  | @duplicateField earlier later key value hf hk hkey =>
    subst hf
    have hearlier : Typed earlier := fun g hg => ht g (List.mem_append_left _ hg)
    obtain ⟨g, hg, rfl⟩ := List.mem_map.mp hkey
    exact ofFields_of_offending hearlier hk
      fun slots hholds => put_of_repeated hholds hearlier (hk.known g hg) hkey
  | missingValue hk hv =>
    obtain ⟨slots, hholds, hread⟩ := ofFields_of_wellKeyed (r := r) ht hk
    have hvalue : slots.value? = none := by
      rw [← Option.not_isSome_iff_eq_none, hholds.isSome_value?_iff ht]
      exact hv
    rw [hread]
    simp [Slots.toQuantity, hvalue, Json.Decoder.orRefusal]
  | @unknownUnit s hk hv hs h1 hu =>
    obtain ⟨slots, hholds, hread⟩ := ofFields_of_wellKeyed (r := r) ht hk
    obtain ⟨x, hvalue⟩ := Option.isSome_iff_exists.mp ((hholds.isSome_value?_iff ht).mpr hv)
    have hunit : slots.unit? = some s := (hholds.unit_iff s).mpr hs
    rw [hread]
    simp [Slots.toQuantity, hvalue, hunit, h1, hu, Json.Decoder.orRefusal]

/-- A list of fields with different keys has one unit at most. -/
theorem WellKeyed.unit_unique (hk : WellKeyed fields) {s t : String}
    (hs : ("unit", .string s) ∈ fields) (ht : ("unit", .string t) ∈ fields) : s = t := by
  have h := List.inj_on_of_nodup_map hk.nodup hs ht rfl
  exact Json.string.inj (Prod.ext_iff.mp h).2

/-- Fields with known and different keys describe a quantity when there is a value, and the unit is `1`
or registered. -/
theorem exists_describes_iff (ht : Typed fields) (hk : WellKeyed fields) :
    (∃ q, Describes r fields q) ↔ "value" ∈ fields.map Prod.fst ∧
      ∀ s, ("unit", .string s) ∈ fields → s = "1" ∨ r.contains s = true := by
  constructor
  · rintro ⟨q, hvalue, hunit⟩
    refine ⟨List.mem_map.mpr ⟨_, hvalue, rfl⟩, fun t ht => ?_⟩
    rcases hunit with ⟨hone, -⟩ | ⟨s, hs, -, hu⟩
    · exact .inl (hone t ht)
    · obtain rfl := hk.unit_unique hs ht
      exact .inr (Option.isSome_iff_exists.mpr ⟨_, hu⟩)
  · rintro ⟨hv, hunit⟩
    obtain ⟨⟨key, value⟩, hf, rfl⟩ := List.mem_map.mp hv
    obtain ⟨x, rfl⟩ := (ht _ hf).1 rfl
    by_cases hone : ∀ s, ("unit", .string s) ∈ fields → s = "1"
    · exact ⟨⟨x, .one⟩, hf, .inl ⟨hone, rfl⟩⟩
    · obtain ⟨s, hs, h1⟩ : ∃ s, ("unit", .string s) ∈ fields ∧ s ≠ "1" := by simpa using hone
      obtain ⟨u, hu⟩ := Option.isSome_iff_exists.mp ((hunit s hs).resolve_left h1)
      exact ⟨⟨x, u⟩, hf, .inr ⟨s, hs, h1, hu⟩⟩

/-- Fields with known and different keys describe a quantity, or it is the value or the unit that they
are refused for. -/
theorem describes_or_refuses_of_wellKeyed (ht : Typed fields) (hk : WellKeyed fields) :
    (∃ q, Describes r fields q) ∨ ∃ e, Refuses r fields e := by
  by_cases hv : "value" ∈ fields.map Prod.fst
  · by_cases hunit : ∀ s, ("unit", .string s) ∈ fields → s = "1" ∨ r.contains s = true
    · exact .inl ((exists_describes_iff ht hk).mpr ⟨hv, hunit⟩)
    · obtain ⟨s, hs, h1, hu⟩ : ∃ s, ("unit", .string s) ∈ fields ∧ s ≠ "1" ∧
          r.contains s = false := by simpa using hunit
      have hnone : r.get? s = none := by simpa [Registry.contains] using hu
      exact .inr ⟨_, .unknownUnit hk hv hs h1 hnone⟩
  · exact .inr ⟨_, .missingValue hk hv⟩

theorem describes_or_refuses (ht : Typed fields) :
    (WellKeyed fields ∧ ∃ q, Describes r fields q) ∨ ∃ e, Refuses r fields e := by
  rcases wellKeyed_or_exists_offending fields with hk | ⟨earlier, ⟨key, value⟩, later, h, hk, hf⟩
  · exact (describes_or_refuses_of_wellKeyed ht hk).imp_left fun hq => ⟨hk, hq⟩
  · right
    rw [wellKeyed_append_singleton_iff, and_iff_right hk, not_and_or, not_or, not_not] at hf
    rcases hf with ⟨hv, hu⟩ | hkey
    · exact ⟨_, .unknownField h hk hv hu⟩
    · exact ⟨_, .duplicateField h hk hkey⟩

theorem ofFields_eq_ok_iff {q : Quantity Float} (ht : Typed fields) :
    ofFields r fields = .ok q ↔ WellKeyed fields ∧ Describes r fields q := by
  refine ⟨fun h => ?_, fun ⟨hk, hq⟩ => ofFields_of_describes ht hk hq⟩
  rcases describes_or_refuses (r := r) ht with ⟨hk, p, hp⟩ | ⟨e, he⟩
  · rw [ofFields_of_describes ht hk hp] at h
    cases h
    exact ⟨hk, hp⟩
  · rw [ofFields_of_refuses ht he] at h
    cases h

theorem ofFields_eq_error_iff {fault : Json.Fault FieldError} (ht : Typed fields) :
    ofFields r fields = .error fault ↔ ∃ e, fault = .refused e ∧ Refuses r fields e := by
  constructor
  · intro h
    rcases describes_or_refuses (r := r) ht with ⟨hk, p, hp⟩ | ⟨e, he⟩
    · rw [ofFields_of_describes ht hk hp] at h
      cases h
    · rw [ofFields_of_refuses ht he] at h
      cases h
      exact ⟨e, rfl, he⟩
  · rintro ⟨e, rfl, he⟩
    exact ofFields_of_refuses ht he

/-! ### The format -/

/-- The format of a quantity: no other keys, one value, one unit at most, and that is `1` or
registered. -/
structure HasFormat (r : Registry Float) (fields : List (String × Json)) : Prop where
  known : ∀ f ∈ fields, f.1 = "value" ∨ f.1 = "unit"
  count_value : (fields.map Prod.fst).count "value" = 1
  count_unit : (fields.map Prod.fst).count "unit" ≤ 1
  unit_known : ∀ s, ("unit", .string s) ∈ fields → s = "1" ∨ r.contains s = true

theorem HasFormat.wellKeyed (h : HasFormat r fields) : WellKeyed fields := by
  refine ⟨h.known, List.nodup_iff_count_le_one.mpr fun key => ?_⟩
  by_cases hkey : key ∈ fields.map Prod.fst
  · obtain ⟨f, hf, rfl⟩ := List.mem_map.mp hkey
    rcases h.known f hf with hv | hu
    · rw [hv]
      exact h.count_value.le
    · rw [hu]
      exact h.count_unit
  · rw [List.count_eq_zero_of_not_mem hkey]
    exact zero_le_one

/-- The fields of the format are those that describe a quantity, without a key too many. -/
theorem hasFormat_iff (ht : Typed fields) :
    HasFormat r fields ↔ WellKeyed fields ∧ ∃ q, Describes r fields q := by
  constructor
  · intro h
    have hv : "value" ∈ fields.map Prod.fst := by
      rw [← List.count_pos_iff, h.count_value]
      exact one_pos
    exact ⟨h.wellKeyed, (exists_describes_iff ht h.wellKeyed).mpr ⟨hv, h.unit_known⟩⟩
  · rintro ⟨hk, hq⟩
    obtain ⟨hv, hunit⟩ := (exists_describes_iff ht hk).mp hq
    exact ⟨hk.known, List.count_eq_one_of_mem hk.nodup hv,
      List.nodup_iff_count_le_one.mp hk.nodup _, hunit⟩

/-! ### Order -/

theorem WellKeyed.perm {fields' : List (String × Json)} (hk : WellKeyed fields)
    (h : fields.Perm fields') : WellKeyed fields' :=
  ⟨fun f hf => hk.known f (h.mem_iff.mpr hf), (h.map Prod.fst).nodup hk.nodup⟩

theorem Describes.perm {fields' : List (String × Json)} {q : Quantity Float}
    (hq : Describes r fields q) (h : fields.Perm fields') : Describes r fields' q := by
  obtain ⟨hvalue, hunit⟩ := hq
  simp only [h.mem_iff] at hvalue hunit
  exact ⟨hvalue, hunit⟩

/-- **Reading quantities.**  Take any list of fields in which every value is a number and every unit a
text.  It is read exactly if it has the format, in any order; then it is read as the number in the unit
of its name, or as a plain number if there is no unit or the unit is `1`, and every list of the same fields
is read as the same quantity.  Any other list is refused, for its first key that is unknown or was there
before; if there is none, for the value that is missing; and if there is one, for the unit. -/
theorem reading_laws (r : Registry Float) (ht : Typed fields) :
    ((∃ q, ofFields r fields = .ok q) ↔ HasFormat r fields) ∧
    (∀ q, ofFields r fields = .ok q → Describes r fields q ∧
      ∀ fields', fields.Perm fields' → ofFields r fields' = .ok q) ∧
    (∀ fault, ofFields r fields = .error fault ↔ ∃ e, fault = .refused e ∧ Refuses r fields e) := by
  refine ⟨?_, fun q h => ?_, fun fault => ofFields_eq_error_iff ht⟩
  · simp only [ofFields_eq_ok_iff ht, exists_and_left, hasFormat_iff ht]
  · obtain ⟨hk, hq⟩ := (ofFields_eq_ok_iff ht).mp h
    refine ⟨hq, fun fields' hperm => ?_⟩
    have ht' : Typed fields' := fun f hf => ht f (hperm.mem_iff.mpr hf)
    exact ofFields_of_describes ht' (hk.perm hperm) (hq.perm hperm)

/-- Centimetres whose unit comes before the value are read, and so they are in the other order.  Where the
value is there twice, that is what is said, though the key after it is unknown and there is no unit of
that name. -/
theorem reading_laws_centimetres :
    let fields : List (String × Json) := [("unit", .string "cm"), ("value", .number 2.5)]
    let repeated : List (String × Json) :=
      [("value", .number 1), ("unit", .string "x"), ("value", .number 2), ("of", .null)]
    Typed fields ∧ Typed repeated ∧
      (∃ q, ofFields Registry.builtin fields = .ok q ∧ Describes Registry.builtin fields q ∧
        ofFields Registry.builtin [("value", .number 2.5), ("unit", .string "cm")] = .ok q) ∧
      ofFields Registry.builtin repeated = .error (.refused (.duplicateField "value")) := by
  intro fields repeated
  have hfields : Typed fields := by simp [Typed, fields]
  have hrepeated : Typed repeated := by simp [Typed, repeated]
  obtain ⟨hiff, hread, -⟩ := reading_laws Registry.builtin hfields
  obtain ⟨-, -, hrefused⟩ := reading_laws Registry.builtin hrepeated
  have hany : (Catalog.metres.get? "cm").isSome = true := by decide +kernel
  obtain ⟨u, hu⟩ := Option.isSome_iff_exists.mp hany
  have hformat : HasFormat Registry.builtin fields := by
    refine ⟨by simp [fields], by decide, by decide, fun s hs => .inr ?_⟩
    obtain rfl : s = "cm" := by simpa [fields] using hs
    exact Option.isSome_iff_exists.mpr ⟨u, Catalog.get?_builtin_of_metres hu⟩
  obtain ⟨q, hq⟩ := hiff.mpr hformat
  obtain ⟨hdescribes, hperm⟩ := hread q hq
  have hearlier : WellKeyed [("value", .number 1), ("unit", .string "x")] :=
    ⟨by simp, by decide⟩
  exact ⟨hfields, hrepeated, ⟨q, hq, hdescribes, hperm _ (List.Perm.swap _ _ _)⟩,
    (hrefused _).mpr ⟨_, rfl, .duplicateField rfl hearlier (by decide)⟩⟩

end Metrology.Quantity
