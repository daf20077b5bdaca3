import Metrology.Proofs.Catalog.Listing
import Metrology.Proofs.Catalog.Scale
import Metrology.Proofs.UnitOfMeasure.Display
import Metrology.Quantity.Fields

/-!
# Quantities that are written and read again

A quantity is written with the text of its unit, and what is read has the unit that this text is bound
to.  Nothing is changed on the way if the text is that of no other unit.  For the units that are
`Composed` of those of the catalog there are three cases:

* An atom is a unit of the catalog, and its symbol is bound to an equal unit
  (`ofFields_toFields_of_atom`).
* A product with factors is bound to no name: the names of the catalog are words, and a product that is
  written like a word is one factor to the first power (`get?_text_of_product`).
* A product without factors is written `1`, and read as the unit of plain numbers.  It has no dimension,
  but its scale need not be one: factors cancel exactly, and scales are rounded
  (`exists_read_as_plain_number`).
-/

namespace Metrology

open Result

namespace UnitOfMeasure

/-- The units that come about from those of the catalog by products, quotients, reciprocals and
powers. -/
inductive Composed : UnitOfMeasure Float → Prop
  | bound {name : String} {u : UnitOfMeasure Float} (h : Registry.builtin.get? name = some u) :
      Composed u
  | multiply {u v w : UnitOfMeasure Float} (hu : Composed u) (hv : Composed v)
      (h : u.multiply v = .ok w) : Composed w
  | divide {u v w : UnitOfMeasure Float} (hu : Composed u) (hv : Composed v)
      (h : u.divide v = .ok w) : Composed w
  | invert {u w : UnitOfMeasure Float} (hu : Composed u) (h : u.invert = .ok w) : Composed w
  | power {u w : UnitOfMeasure Float} {p : Exponent} (hu : Composed u) (h : u.power p = .ok w) :
      Composed w

/-- An atom is a unit of the catalog. -/
def IsBound (a : Atom Float) : Prop :=
  ∃ name, Registry.builtin.get? name = some (atom a)

variable {u v : UnitOfMeasure Float} {a : Atom Float}

/-! ### Units of the catalog -/

/-- The symbol of a unit of the catalog is bound to an equal unit. -/
theorem IsBound.exists_symbol (h : IsBound a) :
    ∃ v, Registry.builtin.get? a.symbol = some v ∧ (v == atom a) = true := by
  obtain ⟨name, hname⟩ := h
  obtain ⟨-, symbol, v, hsymbol, hv, heq⟩ := Catalog.exists_symbol_builtin hname
  cases hsymbol
  exact ⟨v, hv, heq⟩

theorem IsBound.isWord (h : IsBound a) : IsWord a.symbol := by
  obtain ⟨v, hv, -⟩ := h.exists_symbol
  exact Catalog.isWord_builtin hv

/-- Equal units are worth the same, if their scale and their offset are defined. -/
theorem isEqualSize_of_beq (h : (v == u) = true) (hs : Scalar.isFinite u.scale = true)
    (ho : Scalar.isFinite u.offset = true) : v.isEqualSize u = true := by
  rcases Bool.or_eq_true_iff.mp h with hsame | hsize
  · obtain ⟨-, -, hd, hscale, hoffset⟩ := isSame_iff.mp hsame
    refine isEqualSize_iff.mpr ⟨hd, ?_, ?_⟩
    · rw [hscale]
      exact (Binary64.beq_iff_toRat_eq hs hs).mpr rfl
    · rw [hoffset]
      exact (Binary64.beq_iff_toRat_eq ho ho).mpr rfl
  · exact hsize

/-! ### Composed units -/

namespace Composed

theorem reachable (h : Composed u) : Reachable u := by
  induction h with
  | bound h => exact (Catalog.exists_symbol_builtin h).1
  | multiply _ _ h ihu ihv => exact .multiply ihu ihv h
  | divide _ _ h ihu ihv => exact .divide ihu ihv h
  | invert _ h ih => exact ih.invert h
  | power _ h ih => exact .power ih trivial h

/-- All factors are units of the catalog. -/
theorem isBound (h : Composed u) : ∀ f ∈ u.factors, IsBound f.1 := by
  induction h with
  | @bound name u h =>
    obtain ⟨-, symbol, -, hsymbol, -⟩ := Catalog.exists_symbol_builtin h
    cases u with
    | atom a => exact forall_factor_atom ⟨name, h⟩
    | product factors d s => cases hsymbol
  | multiply _ _ h ihu ihv => exact forall_factor_of_multiply h ihu ihv
  | divide _ _ h ihu ihv => exact forall_factor_of_divide h ihu ihv
  | invert _ h ih => exact forall_factor_of_divide h (fun f hf => by cases hf) ih
  | power _ h ih => exact forall_factor_of_power h ih

theorem isWord_factors (h : Composed u) :
    ∀ f ∈ u.factors.map fun f => (f.1.symbol, f.2), IsWord f.1 := by
  intro f hf
  obtain ⟨g, hg, rfl⟩ := List.mem_map.mp hf
  exact (h.isBound g hg).isWord

/-- A unit is written `1` only if it has no factors. -/
theorem text_eq_one_iff (h : Composed u) : u.text = "1" ↔ u.factors = [] := by
  rw [text_eq_factorsText]
  constructor
  · intro htext
    have hnil : u.factors.map (fun f => (f.1.symbol, f.2)) = [] :=
      productText_injective h.isWord_factors (fun f hf => by cases hf) htext
    exact List.map_eq_nil_iff.mp hnil
  · intro hf
    rw [hf]
    rfl

/-- A product with factors is bound to no name. -/
theorem get?_text_of_product (h : Composed u) (hu : u.symbol? = none) :
    Registry.builtin.get? u.text = none := by
  by_contra hbound
  obtain ⟨v, hv⟩ := Option.ne_none_iff_exists'.mp hbound
  have hword := Catalog.isWord_builtin hv
  rw [text_eq_factorsText] at hword
  have hsingle := eq_single_of_isWord h.isWord_factors hword
  obtain ⟨f, rest, hfactors, hf, hrest⟩ := List.map_eq_cons_iff.mp hsingle
  rw [List.map_eq_nil_iff.mp hrest] at hfactors
  have hfirst : f.2 = 1 := (Prod.ext_iff.mp hf).2
  exact (h.reachable.normalForm hu).ne_single f.1 (by rw [hfactors, ← hfirst])

end Composed

/-- A unit without factors is a product, and products have no offset. -/
theorem offset_of_factors_nil (hf : u.factors = []) : u.offset = 0 := by
  cases u with
  | atom a => cases hf
  | product factors d s => rfl

end UnitOfMeasure

namespace Quantity

open UnitOfMeasure

variable {q : Quantity Float}

/-! ### Reading what was written -/

/-- The text of the unit decides what is read. -/
theorem ofFields_toFields (hv : q.value.isFinite = true) (r : Registry Float) :
    ofFields r q.toFields =
      if q.unit.text = "1" then .ok ⟨q.value, one⟩
      else
        match r.get? q.unit.text with
        | some u => .ok ⟨q.value, u⟩
        | none => .error (.refused (.unknownUnit q.unit.text)) := by
  have hfields : q.toFields = [("value", .number q.value), ("unit", .string q.unit.text)] := by
    rw [toFields, if_pos hv]
  have hput : (decoder r).putAll (decoder r).start q.toFields =
      .ok ⟨some q.value, some q.unit.text⟩ := by
    rw [hfields]
    rfl
  rw [ofFields, Json.Decoder.ofMembers, hput]
  change Json.Decoder.orRefusal (Slots.toQuantity ⟨some q.value, some q.unit.text⟩ r) = _
  simp only [Slots.toQuantity]
  by_cases h : q.unit.text = "1"
  · simp only [h, if_true]
    rfl
  · simp only [h, if_false]
    cases r.get? q.unit.text <;> rfl

/-- What is written in a unit of the catalog is read in an equal unit. -/
theorem ofFields_toFields_of_atom {a : Atom Float} (hq : Composed q.unit)
    (hv : q.value.isFinite = true) (ha : q.unit = atom a) :
    ∃ v, ofFields Registry.builtin q.toFields = .ok ⟨q.value, v⟩ ∧ v.isEqualSize q.unit = true := by
  have hbound : IsBound a := hq.isBound (a, 1) (by rw [ha]; exact List.mem_singleton.mpr rfl)
  obtain ⟨v, hget, heq⟩ := hbound.exists_symbol
  have htext : q.unit.text = a.symbol := congrArg text ha
  refine ⟨v, ?_, ?_⟩
  · rw [ofFields_toFields hv, htext, if_neg hbound.isWord.ne_one, hget]
  · obtain ⟨name, hname⟩ := hbound
    have hgraded := Catalog.graded_builtin hname
    rw [ha]
    exact isEqualSize_of_beq heq (Binary64.toRat_pos_iff.mp hgraded.scale).1 hgraded.offset

/-- **Reading what was written.**  Take a finite value in a unit that is composed of units of the
catalog.  If the unit is an atom, the value is read in an equal unit.  If it is a product with factors,
reading fails, and says that the unit is unknown.  If it is a product without factors, the value is read
as a plain number: the unit that is read has the dimension and the offset of the one that was written,
and is equal to it exactly when the scale of the latter is one. -/
theorem read_of_written (hq : Composed q.unit) (hv : q.value.isFinite = true) :
    (∀ a, q.unit = atom a → ∃ v, ofFields Registry.builtin q.toFields = .ok ⟨q.value, v⟩ ∧
      v.isEqualSize q.unit = true) ∧
    (q.unit.symbol? = none → q.unit.factors ≠ [] →
      ofFields Registry.builtin q.toFields = .error (.refused (.unknownUnit q.unit.text))) ∧
    (q.unit.factors = [] → ofFields Registry.builtin q.toFields = .ok ⟨q.value, one⟩ ∧
      q.unit.dimension = .dimensionless ∧ q.unit.offset = 0 ∧
      (one.isEqualSize q.unit = true ↔ (q.unit.scale == 1) = true)) := by
  refine ⟨fun a ha => ofFields_toFields_of_atom hq hv ha, fun hu hf => ?_, fun hf => ?_⟩
  · rw [ofFields_toFields hv, if_neg (mt hq.text_eq_one_iff.mp hf), hq.get?_text_of_product hu]
  · have hdimension := hq.reachable.dimension_of_factors_nil hf
    have hoffset := offset_of_factors_nil hf
    refine ⟨?_, hdimension, hoffset, ?_⟩
    · rw [ofFields_toFields hv, if_pos (hq.text_eq_one_iff.mpr hf)]
    · rw [isEqualSize_iff, hdimension, hoffset, BEq.comm]
      exact ⟨fun h => h.2.1, fun h => ⟨rfl, h, rfl⟩⟩

/-- Centimetres are read as centimetres, square centimetres are refused, and centimetres by centimetres
are a plain number. -/
theorem read_of_written_centimetres :
    ∃ cm square ratio v : UnitOfMeasure Float, Registry.builtin.get? "cm" = some cm ∧
      cm.power (.ofInt8 2) = .ok square ∧ cm.divide cm = .ok ratio ∧
      ofFields Registry.builtin (toFields ⟨2.5, cm⟩) = .ok ⟨2.5, v⟩ ∧ v.isEqualSize cm = true ∧
      ofFields Registry.builtin (toFields ⟨2.5, square⟩) =
        .error (.refused (.unknownUnit "cm^2")) ∧
      ofFields Registry.builtin (toFields ⟨2.5, ratio⟩) = .ok ⟨2.5, one⟩ ∧
      one.isEqualSize ratio = true := by
  have hrun : (Catalog.metres.get? "cm").map (fun cm =>
      ((cm.power (.ofInt8 2)).map fun square => (square.symbol?, square.text)).toOption) =
        some (some (none, "cm^2")) := by decide +kernel
  have hrun' : (Catalog.metres.get? "cm").map (fun cm =>
      ((cm.divide cm).map fun ratio => (ratio.text, ratio.scale == 1)).toOption) =
        some (some ("1", true)) := by decide +kernel
  obtain ⟨cm, hcm, hrun⟩ := Option.map_eq_some_iff.mp hrun
  rw [hcm] at hrun'
  obtain ⟨square, hsquare, hrun⟩ := map_eq_ok.mp (eq_ok_of_toOption hrun)
  obtain ⟨ratio, hratio, hrun'⟩ := map_eq_ok.mp (eq_ok_of_toOption (Option.some.inj hrun'))
  obtain ⟨hanonymous, htext⟩ : square.symbol? = none ∧ square.text = "cm^2" := Prod.ext_iff.mp hrun
  obtain ⟨hone, hscale⟩ : ratio.text = "1" ∧ (ratio.scale == 1) = true := Prod.ext_iff.mp hrun'
  have hbuiltin := Catalog.get?_builtin_of_metres hcm
  have hc : Composed cm := .bound hbuiltin
  have hv : (2.5 : Float).isFinite = true := by decide +kernel
  have hs : Composed square := .power hc hsquare
  have hr : Composed ratio := .divide hc hc hratio
  obtain ⟨-, symbol, -, hsymbol, -⟩ := Catalog.exists_symbol_builtin hbuiltin
  cases cm with
  | product factors d s => cases hsymbol
  | atom a =>
    obtain ⟨hatom, -, -⟩ := read_of_written (q := ⟨2.5, atom a⟩) hc hv
    obtain ⟨-, hproduct, -⟩ := read_of_written (q := ⟨2.5, square⟩) hs hv
    obtain ⟨-, -, hplain⟩ := read_of_written (q := ⟨2.5, ratio⟩) hr hv
    obtain ⟨v, hread, heq⟩ := hatom a rfl
    have hfactors : square.factors ≠ [] := fun hnil =>
      absurd (htext.symm.trans (hs.text_eq_one_iff.mpr hnil)) (by decide)
    obtain ⟨hreadPlain, -, -, hequal⟩ := hplain (hr.text_eq_one_iff.mp hone)
    have hrefused := hproduct hanonymous hfactors
    rw [← htext]
    exact ⟨atom a, square, ratio, v, hbuiltin, hsquare, hratio, hread, heq, hrefused, hreadPlain,
      hequal.mpr hscale⟩

/-- A nanometre by a nanometre is composed of units of the catalog and written `1`, but its scale is not
one.  A quantity in that unit is read as a plain number, which is not equal to it. -/
theorem exists_read_as_plain_number :
    ∃ nm reciprocal u : UnitOfMeasure Float, Registry.builtin.get? "nm" = some nm ∧
      nm.invert = .ok reciprocal ∧ nm.multiply reciprocal = .ok u ∧ Composed u ∧
      ofFields Registry.builtin (toFields ⟨1, u⟩) = .ok ⟨1, one⟩ ∧
      one.isEqualSize u = false := by
  have hrun : (Catalog.metres.get? "nm").map (fun nm =>
      (nm.invert.bind fun reciprocal => (nm.multiply reciprocal).map fun u =>
        (u.text, one.isEqualSize u)).toOption) = some (some ("1", false)) := by decide +kernel
  obtain ⟨nm, hnm, hrun⟩ := Option.map_eq_some_iff.mp hrun
  obtain ⟨reciprocal, hreciprocal, hrun⟩ := bind_eq_ok.mp (eq_ok_of_toOption hrun)
  obtain ⟨u, hu, hrun⟩ := map_eq_ok.mp hrun
  obtain ⟨htext, hne⟩ := Prod.ext_iff.mp hrun
  have hbuiltin := Catalog.get?_builtin_of_metres hnm
  have hc : Composed nm := .bound hbuiltin
  have hv : (1 : Float).isFinite = true := by decide +kernel
  refine ⟨nm, reciprocal, u, hbuiltin, hreciprocal, hu, .multiply hc (.invert hc hreciprocal) hu, ?_,
    hne⟩
  rw [ofFields_toFields (q := ⟨1, u⟩) hv, if_pos htext]

end Quantity

end Metrology
