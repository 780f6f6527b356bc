import Wcdb.Base.UTF16
import Wcdb.Core.CompressingStatement

/-!
# `bindText16`

A UTF-16 text for a compressing column is changed to UTF-8 and bound as such; for any other
parameter it is handed to SQLite as it is. So a compressing column stores the text that
`bindText` stores exactly where the change is right: `bindsAsUTF8_iff`.
-/

namespace Wcdb.UTF16

variable (target : Target)

/-- `bindText16`. `own` is the text that SQLite itself keeps of UTF-16 units. -/
def bindText16 (own : List UInt16 → List UInt8) (z : Zstd) (stmt : Statement) (can : Bool)
    (σ : BindState) (index : ℕ) (value : List UInt16) : BindState :=
  match stmt.infoAt index with
  | none => bindPlain stmt σ index (.text (own value))
  | some _ => bindData z stmt can σ index true (createFromUTF16 target value)

/-- **A UTF-16 text is stored as its UTF-8 encoding**, and binding it to a compressing column is
binding that. -/
structure BindsAsUTF8 (s : List Char) : Prop extends StoredAsUTF8 target s where
  binds : ∀ (own : List UInt16 → List UInt8) (z : Zstd) (stmt : Statement) (can : Bool)
    (σ : BindState) (index : ℕ), (stmt.infoAt index).isSome = true →
      bindText16 target own z stmt can σ index (utf16 s) = bindData z stmt can σ index true (utf8 s)

/-- **`bindText16` on a compressing column**, for every target and every well-formed text. -/
theorem bindsAsUTF8_iff (s : List Char) :
    BindsAsUTF8 target s ↔ target.charSigned = false ∨ ∀ u ∈ utf16 s, Plain u := by
  rw [← storedAsUTF8_iff]
  refine ⟨BindsAsUTF8.toStoredAsUTF8, fun h => ⟨h, fun own z stmt can σ index hinfo => ?_⟩⟩
  obtain ⟨info, hinfo⟩ := Option.isSome_iff_exists.mp hinfo
  rw [bindText16, hinfo, h.content]

/-- An `é`, which is one unit below 256, becomes four bytes where `char` has a sign. -/
theorem not_bindsAsUTF8 :
    createFromUTF16 ⟨true, false⟩ (utf16 ['é']) = [0xF7, 0xBF, 0xBF, 0xA9] ∧
      ¬BindsAsUTF8 ⟨true, false⟩ ['é'] := by
  have hbytes : createFromUTF16 ⟨true, false⟩ (utf16 ['é']) = [0xF7, 0xBF, 0xBF, 0xA9] := by
    decide
  refine ⟨hbytes, fun h => ?_⟩
  have hcontent := h.content
  rw [hbytes] at hcontent
  exact absurd hcontent (by decide)

end Wcdb.UTF16
