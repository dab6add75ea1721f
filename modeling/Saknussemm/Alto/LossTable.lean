import Saknussemm.Alto.Parser

/-! # What happens to each attribute of an ALTO `String`.

The table of the fates a rewrite has for them, and the counters that read
it.  An attribute nobody thought about is lost, and said to be. -/

namespace Saknussemm.Alto

/-- `str.upper` and `str.lower`. -/
class Casing where
  upper : Str → Str
  lower : Str → Str
  upper_ascii : ∀ s : Str, (∀ c ∈ s, c.toNat < 128) → upper s = s.map Char.toUpper
  lower_ascii : ∀ s : Str, (∀ c ∈ s, c.toNat < 128) → lower s = s.map Char.toLower

/-- The cases of ASCII letters. -/
@[reducible] def Casing.ascii : Casing where
  upper := List.map Char.toUpper
  lower := List.map Char.toLower
  upper_ascii := fun _ _ => rfl
  lower_ascii := fun _ _ => rfl

/-- Does an attribute describe the token, or mean something? -/
inductive AttributeClass where
  | structural | semantic
  deriving DecidableEq, Repr

/-- What a rewrite does with an attribute. -/
inductive AttributeFate where
  | rewritten | preserved | invalidated | dropped
  deriving DecidableEq, Repr

/-- The `String` attributes whose fate is known, in upper case. -/
def altoStringAttributes : Dict Str (AttributeClass × AttributeFate) :=
  [("CONTENT".toList, .structural, .rewritten),
    ("ID".toList, .structural, .rewritten),
    ("HPOS".toList, .structural, .rewritten),
    ("VPOS".toList, .structural, .rewritten),
    ("WIDTH".toList, .structural, .rewritten),
    ("HEIGHT".toList, .structural, .rewritten),
    ("SUBS_TYPE".toList, .semantic, .rewritten),
    ("SUBS_CONTENT".toList, .semantic, .rewritten),
    ("STYLEREFS".toList, .semantic, .preserved),
    ("WC".toList, .semantic, .invalidated),
    ("CC".toList, .semantic, .invalidated),
    ("STYLE".toList, .semantic, .dropped)]

/-- Attributes lost only with a `String` the alignment could not match. -/
def alignmentScoped : List Str := ["STYLE".toList, "STYLEREFS".toList]

/-- The two attributes written from the hyphen state of a line. -/
def subsAttributes : List Str := ["SUBS_TYPE".toList, "SUBS_CONTENT".toList]

/-- The attributes a correction makes false. -/
def invalidatedAttributes : List Str :=
  (altoStringAttributes.filter fun entry => entry.2.2 = .invalidated).map Prod.fst

/-- An attribute's name without its namespace. -/
def localName (attr : Str) : Str := attr.rtakeWhile (· ≠ '\x7d')

variable [Casing]

/-- The declared fate of an attribute; one nobody knows means something and
is dropped. -/
def fateOf (attr : Str) : AttributeClass × AttributeFate :=
  (Dict.get? altoStringAttributes (Casing.upper (localName attr))).getD (.semantic, .dropped)

/-- Is the attribute removed because a correction made it false? -/
def isInvalidated (attr : Str) : Bool := (fateOf attr).2 = .invalidated

/-- Does a report carry a counter for the attribute? -/
def isCountableLoss (attr : Str) : Bool :=
  match (fateOf attr).2 with
  | .dropped | .invalidated => true
  | _ => false

/-- Is the attribute counted once for each `String` that had it? -/
def isUnconditionalLoss (attr : Str) : Bool :=
  let name := Casing.upper (localName attr)
  if name ∈ alignmentScoped || isInvalidated name then false else isCountableLoss name

/-- The counter of an attribute. -/
def lossKey (name : Str) : Str := Casing.lower name ++ "_dropped".toList

omit [Casing] in
/-- `losses[key] = losses.get(key, 0) + 1`. -/
def countLoss (losses : Dict Str Nat) (key : Str) : Dict Str Nat :=
  losses.set key ((losses.get? key).getD 0 + 1)

end Saknussemm.Alto
