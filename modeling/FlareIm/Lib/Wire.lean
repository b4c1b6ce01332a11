import Mathlib.Data.List.Defs

namespace Wire

-- A way to write values of a type as bytes and to read them back.
structure Format (α : Type) where
  encode : α → List UInt8
  decode : List UInt8 → Option α

-- The format reads back what it wrote of the value. No bytes are the default value.
structure Format.Faithful {α : Type} [Inhabited α] (format : Format α) (value : α) : Prop where
  decode_encode : format.decode (format.encode value) = some value
  decode_nil : format.decode [] = some default

section Faithful

variable {α : Type} [Inhabited α] {format : Format α} {value : α}

theorem Format.Faithful.encode_ne_nil (h : format.Faithful value) (hv : value ≠ default) :
    format.encode value ≠ [] := by
  intro hn
  have hde := h.decode_encode
  rw [hn, h.decode_nil] at hde
  exact hv (Option.some.inj hde).symm

theorem Format.Faithful.map_decode_encode {β : Type} (h : format.Faithful value) (f : α → β) :
    (format.decode (format.encode value)).map f = some (f value) := by
  rw [h.decode_encode, Option.map_some]

end Faithful

end Wire
