import Mathlib.Data.List.Basic
import Metrology.Proofs.Text.Product
import Metrology.Registry.Registration

/-!
# The names of the catalog

The catalog registers units one entry after the other (`entries`), and each unit of an entry on a line of
its own: the unit of the entry, and that unit under every prefix (`Entry.lines`).  A line has the symbol
of the unit and the other names that it is bound to.

The symbol of a line is new: it is not among the names of the lines before it, except for `kg`, which
is the symbol of a base unit and again that of the gram under a prefix (`freshAfter_entries`).  There
are many names, so they are compared by *marks*: the marks met so far are the bits of one number, and a
symbol whose mark has not been met is new (`freshAfter_of_isFreshAfter`).
-/

namespace Metrology.Catalog

open Registration

/-! ### Marks -/

/-- The mark of a text that goes on where a text of mark `n` ends. -/
def markFrom (n : Nat) (s : String) : Nat :=
  s.toList.foldl (fun n c => (n * 131 + c.toNat) % 300007) n

/-- The mark of a text.  Different texts may have one mark. -/
def mark (s : String) : Nat :=
  markFrom 1 s

theorem mark_append (s t : String) : mark (s ++ t) = markFrom (mark s) t := by
  simp [mark, markFrom, String.toList_append, List.foldl_append]

/-- A text with its mark. -/
structure Marked where
  text : String
  mark : Nat
  mark_eq : mark = Catalog.mark text

namespace Marked

/-- A text is marked character by character. -/
def of (s : String) : Marked :=
  ⟨s, Catalog.mark s, rfl⟩

/-- The mark of a text is used for one that starts with it. -/
def append (x : Marked) (s : String) : Marked :=
  ⟨x.text ++ s, markFrom x.mark s, by rw [mark_append, x.mark_eq]⟩

@[simp]
theorem text_of (s : String) : (of s).text = s :=
  rfl

@[simp]
theorem text_append (x : Marked) (s : String) : (x.append s).text = x.text ++ s :=
  rfl

end Marked

/-! ### Entries and lines -/

/-- What a unit is declared with. -/
structure Entry where
  symbol : String
  name : String
  aliases : List String
  prefixable : Bool

/-- The names that a unit is bound to. -/
structure Line where
  symbol : Marked
  others : List Marked

namespace Line

/-- The names besides the symbol. -/
def otherNames (l : Line) : List String :=
  l.others.map Marked.text

/-- All names. -/
def names (l : Line) : List String :=
  l.symbol.text :: l.otherNames

end Line

namespace Entry

/-- The names of the unit itself. -/
def own (e : Entry) : Line :=
  ⟨.of e.symbol, (e.name :: e.aliases).map .of⟩

/-- The names of the unit under a prefix. -/
def under (e : Entry) (p : Prefix) : Line where
  symbol := (Marked.of p.symbol).append e.symbol
  others := (if p = .micro then [(Marked.of "u").append e.symbol] else []) ++
    [(Marked.of p.name).append e.name]

/-- The names of the unit, and those of its metric family. -/
def lines (e : Entry) : List Line :=
  e.own :: if e.prefixable then Prefix.all.map e.under else []

theorem otherNames_own (e : Entry) : e.own.otherNames = e.name :: e.aliases := by
  simp [own, Line.otherNames, Function.comp_def]

theorem otherNames_under (e : Entry) (p : Prefix) :
    (e.under p).otherNames = prefixedNames e.symbol (some e.name) p := by
  unfold under Line.otherNames prefixedNames
  split <;> rfl

end Entry

/-- The names that have been met after some lines. -/
def namesAfter (seen : List String) : List Line → List String
  | [] => seen
  | l :: lines => namesAfter (l.names ++ seen) lines

variable {seen : List String} {lines lines' : List Line} {name : String}

theorem namesAfter_append (seen : List String) (lines lines' : List Line) :
    namesAfter seen (lines ++ lines') = namesAfter (namesAfter seen lines) lines' := by
  induction lines generalizing seen with
  | nil => rfl
  | cons l lines ih => exact ih _

theorem mem_namesAfter :
    name ∈ namesAfter seen lines ↔ name ∈ seen ∨ ∃ l ∈ lines, name ∈ l.names := by
  induction lines generalizing seen with
  | nil => simp [namesAfter]
  | cons l lines ih =>
    rw [namesAfter, ih, List.mem_append, List.exists_mem_cons_iff, or_assoc, or_left_comm]

/-! ### New symbols -/

/-- The symbol of every line is none of the names before it, or it is `kg`, which is no line's other name. -/
def FreshAfter (seen : List String) : List Line → Prop
  | [] => True
  | l :: lines => (l.symbol.text ∉ seen ∨ l.symbol.text = "kg") ∧ "kg" ∉ l.otherNames ∧
      FreshAfter (l.names ++ seen) lines

theorem FreshAfter.of_append (h : FreshAfter seen (lines ++ lines')) :
    FreshAfter seen lines ∧ FreshAfter (namesAfter seen lines) lines' := by
  induction lines generalizing seen with
  | nil => exact ⟨trivial, h⟩
  | cons l lines ih =>
    obtain ⟨hsymbol, hothers, hlines⟩ := h
    obtain ⟨hfirst, hlast⟩ := ih hlines
    exact ⟨⟨hsymbol, hothers, hfirst⟩, hlast⟩

/-- The marks that have been met, as the bits of a number, with those of a line. -/
def addMarks (marks : Nat) (l : Line) : Nat :=
  (l.symbol :: l.others).foldl (fun marks x => marks ||| 1 <<< x.mark) marks

/-- Whether the symbols of lines are seen to be new by their marks. -/
def isFreshAfter (marks : Nat) : List Line → Bool
  | [] => true
  | l :: lines => (!marks.testBit l.symbol.mark || l.symbol.text == "kg") &&
      l.others.all (fun x => !x.mark == mark "kg") && isFreshAfter (addMarks marks l) lines

theorem testBit_foldl {l : List Marked} {marks n : Nat} :
    (l.foldl (fun marks x => marks ||| 1 <<< x.mark) marks).testBit n = true ↔
      marks.testBit n = true ∨ ∃ x ∈ l, x.mark = n := by
  induction l generalizing marks with
  | nil => simp
  | cons x l ih =>
    rw [List.foldl_cons, ih, List.exists_mem_cons_iff, ← or_assoc]
    simp [Nat.testBit_or, Nat.one_shiftLeft, Nat.testBit_two_pow]

theorem testBit_addMarks {l : Line} {marks : Nat} (h : name ∈ l.names) :
    (addMarks marks l).testBit (mark name) = true := by
  rw [Line.names, Line.otherNames, ← List.map_cons] at h
  obtain ⟨x, hx, rfl⟩ := List.mem_map.mp h
  exact testBit_foldl.mpr (.inr ⟨x, hx, x.mark_eq⟩)

/-- Symbols whose marks have not been met are new. -/
theorem freshAfter_of_isFreshAfter {marks : Nat}
    (hseen : ∀ name ∈ seen, marks.testBit (mark name) = true)
    (h : isFreshAfter marks lines = true) : FreshAfter seen lines := by
  induction lines generalizing seen marks with
  | nil => trivial
  | cons l lines ih =>
    rw [isFreshAfter, Bool.and_eq_true, Bool.and_eq_true, Bool.or_eq_true, Bool.not_eq_true',
      beq_iff_eq, List.all_eq_true] at h
    obtain ⟨⟨hsymbol, hothers⟩, hlines⟩ := h
    refine ⟨hsymbol.imp_left fun hmark hmem => ?_, fun hmem => ?_, ih (fun name hn => ?_) hlines⟩
    · rw [l.symbol.mark_eq, hseen _ hmem] at hmark
      cases hmark
    · obtain ⟨x, hx, htext⟩ := List.mem_map.mp hmem
      have hmark := hothers x hx
      rw [x.mark_eq, htext, Bool.not_eq_true', beq_eq_false_iff_ne] at hmark
      exact hmark rfl
    · rcases List.mem_append.mp hn with hn | hn
      · exact testBit_addMarks hn
      · exact testBit_foldl.mpr (.inl (hseen name hn))

/-! ### The entries of the catalog -/

/-- The entries of `baseUnits`. -/
def baseEntries : List Entry :=
  [⟨"m", "meter", ["metre"], true⟩, ⟨"s", "second", ["sec"], true⟩, ⟨"A", "ampere", ["amp"], true⟩,
    ⟨"K", "kelvin", [], true⟩, ⟨"mol", "mole", [], true⟩, ⟨"cd", "candela", [], true⟩,
    ⟨"kg", "kilogram", [], false⟩, ⟨"g", "gram", [], true⟩]

/-- The entries of `derivedUnits`. -/
def derivedEntries : List Entry :=
  [⟨"Hz", "hertz", [], true⟩, ⟨"N", "newton", [], true⟩, ⟨"Pa", "pascal", [], true⟩,
    ⟨"J", "joule", [], true⟩, ⟨"W", "watt", [], true⟩, ⟨"C", "coulomb", [], true⟩,
    ⟨"V", "volt", [], true⟩, ⟨"F", "farad", [], true⟩, ⟨"Ω", "ohm", ["Ohm"], true⟩,
    ⟨"S", "siemens", [], true⟩, ⟨"Wb", "weber", [], true⟩, ⟨"T", "tesla", [], true⟩,
    ⟨"H", "henry", [], true⟩, ⟨"Gy", "gray", [], true⟩, ⟨"Sv", "sievert", [], true⟩,
    ⟨"Bq", "becquerel", [], true⟩, ⟨"kat", "katal", [], true⟩, ⟨"lm", "lumen", [], true⟩,
    ⟨"lx", "lux", [], true⟩, ⟨"rad", "radian", [], true⟩, ⟨"sr", "steradian", [], false⟩]

/-- The entries of `temperatureScales`. -/
def temperatureEntries : List Entry :=
  [⟨"°C", "celsius", ["degC"], false⟩, ⟨"°F", "fahrenheit", ["degF"], false⟩,
    ⟨"°R", "rankine", ["degR"], false⟩]

/-- The entries of `timeUnits`. -/
def timeEntries : List Entry :=
  [⟨"min", "minute", [], false⟩, ⟨"h", "hour", ["hr"], false⟩, ⟨"d", "day", [], false⟩,
    ⟨"wk", "week", [], false⟩, ⟨"yr", "year", ["a", "julian_year"], false⟩]

/-- The entries of `generalUnits`. -/
def generalEntries : List Entry :=
  [⟨"L", "liter", ["litre", "l"], true⟩, ⟨"ha", "hectare", [], false⟩,
    ⟨"t", "tonne", ["metric_ton"], false⟩, ⟨"Å", "angstrom", [], false⟩, ⟨"bar", "bar", [], true⟩,
    ⟨"atm", "atmosphere", [], false⟩, ⟨"eV", "electronvolt", [], true⟩, ⟨"cal", "calorie", [], true⟩,
    ⟨"Wh", "watthour", [], true⟩, ⟨"BTU", "british_thermal_unit", ["Btu"], false⟩,
    ⟨"erg", "erg", [], false⟩, ⟨"deg", "degree", ["°"], false⟩, ⟨"arcmin", "arcminute", [], false⟩,
    ⟨"arcsec", "arcsecond", [], false⟩]

/-- The entries of `customaryLengths`. -/
def lengthEntries : List Entry :=
  [⟨"in", "inch", ["inches"], false⟩, ⟨"ft", "foot", ["feet"], false⟩,
    ⟨"yd", "yard", ["yards"], false⟩, ⟨"mi", "mile", ["miles"], false⟩,
    ⟨"nmi", "nautical_mile", [], false⟩]

/-- The entries of `customaryUnits`. -/
def customaryEntries : List Entry :=
  [⟨"lb", "pound", ["lbs"], false⟩, ⟨"oz", "ounce", [], false⟩, ⟨"gal", "gallon", [], false⟩,
    ⟨"lbf", "pound_force", [], false⟩, ⟨"psi", "pounds_per_square_inch", [], false⟩,
    ⟨"mph", "miles_per_hour", [], false⟩, ⟨"kn", "knot", ["kt"], false⟩]

/-- The entries of `astronomicalUnits`. -/
def astronomicalEntries : List Entry :=
  [⟨"au", "astronomical_unit", ["AU"], false⟩, ⟨"ly", "light_year", [], false⟩,
    ⟨"pc", "parsec", [], false⟩, ⟨"kpc", "kiloparsec", [], false⟩, ⟨"Mpc", "megaparsec", [], false⟩,
    ⟨"Gpc", "gigaparsec", [], false⟩]

/-- The entries of the catalog, in order. -/
def entries : List Entry :=
  baseEntries ++ (derivedEntries ++ (temperatureEntries ++ (timeEntries ++ (generalEntries ++
    (lengthEntries ++ (customaryEntries ++ astronomicalEntries))))))

/-- No symbol of the catalog is a name of an earlier unit, but for `kg`. -/
theorem freshAfter_entries : FreshAfter [] (entries.flatMap Entry.lines) :=
  have hmarks : isFreshAfter 0 (entries.flatMap Entry.lines) = true := by decide +kernel
  freshAfter_of_isFreshAfter (fun name hn => by cases hn) hmarks

/-! ### Words -/

theorem isWord_of_mem_lines {e : Entry} (hs : IsWord e.symbol) (hn : IsWord e.name)
    (ha : ∀ a ∈ e.aliases, IsWord a) {l : Line} (hl : l ∈ e.lines) (hname : name ∈ l.names) :
    IsWord name := by
  rcases List.mem_cons.mp hl with rfl | hl
  · rw [Line.names, Entry.otherNames_own] at hname
    exact List.forall_mem_cons.mpr ⟨hs, List.forall_mem_cons.mpr ⟨hn, ha⟩⟩ name hname
  · split at hl
    · obtain ⟨p, -, rfl⟩ := List.mem_map.mp hl
      rw [Line.names, Entry.otherNames_under] at hname
      rcases List.mem_cons.mp hname with rfl | hname
      · exact p.isWord_append (.inl hs)
      rcases List.mem_append.mp hname with hu | hlong
      · split at hu
        · rw [List.mem_singleton.mp hu]
          exact IsWord.append (by decide) (.inl hs)
        · cases hu
      · rw [List.mem_singleton.mp hlong]
        exact p.isWord_name.append (.inl hn)
    · cases hl

/-- All names of the catalog can be found again in the text of a product. -/
theorem isWord_of_mem_entries (h : name ∈ namesAfter [] (entries.flatMap Entry.lines)) :
    IsWord name := by
  have hall : ∀ e ∈ entries, IsWord e.symbol ∧ IsWord e.name ∧ ∀ a ∈ e.aliases, IsWord a := by
    decide +kernel
  rcases mem_namesAfter.mp h with hn | ⟨l, hl, hn⟩
  · cases hn
  · obtain ⟨e, he, hl⟩ := List.mem_flatMap.mp hl
    obtain ⟨hs, hname, ha⟩ := hall e he
    exact isWord_of_mem_lines hs hname ha hl hn

end Metrology.Catalog
