import Metrology.Json.Place
import Metrology.Json.Reader

/-!
# Decoding objects

A decoder takes the members of an object in order.  It says what it asks of the value of each key,
stores the value, and judges at the end what it has stored (`ofMembers`).  A text is decoded while
it is read (`ofText`), so that the first fault in reading order counts: a key is judged before its
colon, an array or an object is refused where it opens, and the whole is judged before what follows
the object.
-/

namespace Metrology.Json

/-- What a decoder asks of the value of a key, and what it holds once it has stored the value. -/
inductive Demand (σ : Type) where
  | number (store : Float → σ)
  | text (store : String → σ)

/-- What a decoder holds once it has stored a value, if the value is of the type asked for. -/
def Demand.store? {σ : Type} : Demand σ → Json → Option σ
  | number store, .number x => some (store x)
  | text store, .string s => some (store s)
  | _, _ => none

/-- Why a text or a list of members is not decoded. -/
inductive Fault (ε : Type) where
  | malformed
  | mistyped
  | refused (cause : ε)
deriving DecidableEq

/-- What is said of a fault, without its place; nothing but of a refusal. -/
def Fault.message {ε : Type} (describe : ε → String) : Fault ε → String
  | malformed | mistyped => ""
  | refused cause => withoutPlace (describe cause)

/-- How the members of an object are taken: what is held at the start, what is asked of the value of
a key, and what comes of all that was stored. -/
structure Decoder (σ ε α : Type) where
  start : σ
  demand : σ → String → Except ε (Demand σ)
  finish : σ → Except ε α

namespace Decoder

/-- The content of an option, or a fault. -/
def orFault {ε β : Type} (fault : Fault ε) : Option β → Except (Fault ε) β
  | some x => .ok x
  | none => .error fault

/-- A result or its refusal. -/
def orRefusal {ε β : Type} : Except ε β → Except (Fault ε) β
  | .ok x => .ok x
  | .error cause => .error (.refused cause)

variable {σ ε α : Type} (d : Decoder σ ε α)

/-! ### Lists of members -/

/-- Stores a member. -/
def put (held : σ) (key : String) (value : Json) : Except (Fault ε) σ := do
  let demand ← orRefusal (d.demand held key)
  orFault .mistyped (demand.store? value)

/-- Stores members in order. -/
def putAll (held : σ) : List (String × Json) → Except (Fault ε) σ
  | [] => .ok held
  | (key, value) :: members => do
    let held ← d.put held key value
    putAll held members

/-- What a list of members is decoded to. -/
def ofMembers (members : List (String × Json)) : Except (Fault ε) α := do
  let held ← d.putAll d.start members
  orRefusal (d.finish held)

/-! ### Texts -/

/-- Takes a member off the front of a text and stores it. -/
def takeMember (held : σ) (cs : List Char) : Except (Fault ε) (σ × List Char) := do
  let (key, cs) ← orFault .malformed (key? cs)
  let demand ← orRefusal (d.demand held key)
  let cs ← orFault .malformed (colon? cs)
  let (value, cs) ← orFault .malformed (glimpse? cs)
  let held ← orFault .mistyped (demand.store? value)
  return (held, cs)

/-- Takes members and the closing brace off the front of a text and stores the members, with a bound
on their number. -/
def takeMembers : Nat → σ → List Char → Except (Fault ε) (σ × List Char)
  | 0, _, _ => .error .malformed
  | fuel + 1, held, cs => do
    let (held, cs) ← d.takeMember held cs
    match skipBlanks cs with
    | ',' :: cs => takeMembers fuel held cs
    | '\x7d' :: cs => return (held, cs)
    | _ => .error .malformed

/-- Takes an object off the front of a text and stores its members. -/
def takeObject (cs : List Char) : Except (Fault ε) (σ × List Char) := do
  match skipBlanks cs with
  | '\x7b' :: cs =>
    match skipBlanks cs with
    | '\x7d' :: cs => return (d.start, cs)
    | cs => d.takeMembers (cs.length + 1) d.start cs
  | cs =>
    let _ ← orFault .malformed (glimpse? cs)
    .error .mistyped

/-- What a text is decoded to. -/
def ofText (s : String) : Except (Fault ε) α := do
  let (held, cs) ← d.takeObject s.toList
  let result ← orRefusal (d.finish held)
  if (skipBlanks cs).isEmpty then return result else .error .malformed

end Decoder

end Metrology.Json
